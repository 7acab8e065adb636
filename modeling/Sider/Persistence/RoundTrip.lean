/-
**Version 1 records are read back.**

Every item that the encoder accepts has the predicted length, and the reader gets it back whatever
follows: fields, values (`Value.readable`), mutations (`Mutation.readable`) and records
(`Record.encode_framed`). A record is `Typed` when its numbers are those its machine types hold.
-/

import Sider.Lib.FailingProgram
import Sider.Persistence.Record

namespace Sider

open Cursor (Reads)

open Float64

variable {size total more sequence : Nat} {value text found : Bytes} {α μ ι β ρ : Type}
  {members : OrdSet Bytes} {values : List Bytes} {fields : OrdMap Bytes Bytes} {limits : Limits}
  {record : Record Mutation} {encode : μ → Except FormatError Bytes}
  {step : Nat → α → Except FormatError Nat} {items : List α} {reader : Read.M μ} {cost : ι → Nat}
  {z : SortedSet}

/-! ### Predicted sizes -/

theorem addSize_eq_ok (ok : addSize size more = .ok total) : total = size + more := by
  unfold addSize at ok
  split at ok
  · rename_i sum found
    obtain ⟨_, same⟩ := Machine.checkedAdd_eq_some.mp found
    rw [same]
    exact (Except.ok.inj ok).symm
  · cases ok

theorem addSize_of_lt (small : size + more < Machine.word) :
    addSize size more = .ok (size + more) := by
  unfold addSize Machine.checkedAdd
  rw [if_pos small]

theorem blobSize_eq_ok (ok : blobSize value = .ok size) :
    value.length ≤ u32Max ∧ size = 4 + value.length := by
  unfold blobSize at ok
  split_ifs at ok with long
  exact ⟨Nat.le_of_not_lt long, by rw [addSize_eq_ok ok, Nat.add_comm]⟩

/-- A sum of sizes, when each step adds one item's. -/
theorem foldlM_size (cost : α → Nat) (good : α → Prop)
    (adds : ∀ size item next, step size item = .ok next → good item ∧ next = size + cost item)
    {start : Nat} (ok : items.foldlM step start = .ok total) :
    (∀ item ∈ items, good item) ∧ total = start + (items.map cost).sum := by
  induction items generalizing start with
  | nil =>
    cases ok
    exact ⟨nofun, rfl⟩
  | cons item items ih =>
    obtain ⟨next, first, ok⟩ := bind_eq_ok ok
    obtain ⟨this, rfl⟩ := adds _ _ _ first
    obtain ⟨rest, rfl⟩ := ih ok
    refine ⟨List.forall_mem_cons.mpr ⟨this, rest⟩, ?_⟩
    rw [List.map_cons, List.sum_cons, Nat.add_assoc]

/-- A counted collection that was given a size. -/
structure Counted {α : Type} (items : List α) (cost : α → Nat) (good : α → Prop) (total : Nat) :
    Prop where
  nonempty : items ≠ []
  small : items.length ≤ u32Max
  each : ∀ item ∈ items, good item
  total_eq : total = 4 + (items.map cost).sum

theorem countedSize_eq_ok {what : String} {count : Nat} (same : items.length = count)
    {cost : α → Nat} {good : α → Prop}
    (adds : ∀ size item next, step size item = .ok next → good item ∧ next = size + cost item)
    (ok : countedSize what count items step = .ok total) : Counted items cost good total := by
  subst same
  unfold countedSize at ok
  split_ifs at ok with refused
  rw [not_or] at refused
  obtain ⟨each, sum⟩ := foldlM_size cost good adds ok
  exact ⟨fun empty => refused.1 (by rw [empty]; rfl), Nat.le_of_not_lt refused.2, each, sum⟩

/-! ### Fields -/

namespace Read

theorem reads_u32 {value : Nat} (fits : value ≤ u32Max) : Reads u32 (u32Bytes value) value :=
  Reads.number _ (Nat.lt_of_le_pred (by decide) fits)

theorem reads_u64 {value : Nat} (fits : value < 2 ^ 64) : Reads u64 (u64Bytes value) value :=
  Reads.number _ (fits.trans_le (by decide))

theorem reads_byte (value : Byte) : Reads byte [value] value.val :=
  Reads.digit _ value

theorem signed_i64 {value : Int} (fits : Machine.IsI64 value) :
    signed (value % 2 ^ 64).toNat = value := by
  unfold Machine.IsI64 Machine.i64Min Machine.i64Max at fits
  unfold signed
  split_ifs with low
  · omega
  · omega

theorem reads_i64 {value : Int} (fits : Machine.IsI64 value) : Reads i64 (i64Bytes value) value := by
  have bits : (value % 2 ^ 64).toNat < 2 ^ 64 := by omega
  have reads := (reads_u64 bits).map signed
  rwa [signed_i64 fits] at reads

theorem reads_blob (fits : value.length ≤ u32Max) : Reads blob (encodeBlob value) value :=
  (reads_u32 fits).bind (Reads.take _ value)

/-- A deadline that the reader of a key's or a member's deadline accepts. -/
def Accepts (member : Bool) (deadline : Option Int) : Prop :=
  ∀ value, deadline = some value → Machine.IsI64 value ∧ (member = true → 0 < value)

theorem reads_deadline {member : Bool} {found : Option Int} (accepts : Accepts member found) :
    Reads (deadline member) (encodeDeadline found) found := by
  cases found with
  | none =>
    have zero : Reads i64 (i64Bytes 0) 0 := reads_i64 (by decide)
    exact (reads_byte 0).bind (zero.last (Reads.pure none))
  | some value =>
    obtain ⟨fits, positive⟩ := accepts value rfl
    have kept : 1 = 1 ∧ (member = false ∨ 0 < value) := by
      cases member
      · exact ⟨rfl, .inl rfl⟩
      · exact ⟨rfl, .inr (positive rfl)⟩
    have decided : deadlineOf member 1 value = pure (some value) := by
      unfold deadlineOf
      rw [if_neg (fun both => absurd both.1 (by decide)), if_pos kept]
    refine (reads_byte 1).bind ((reads_i64 fits).last ?_)
    show Reads (deadlineOf member 1 value) [] (some value)
    rw [decided]
    exact Reads.pure _

theorem length_mul_le_sum {items : List ι} {unit : Nat} (wide : ∀ item ∈ items, unit ≤ cost item) :
    items.length * unit ≤ (items.map cost).sum := by
  simpa using List.card_nsmul_le_sum (items.map cost) unit (by simpa using wide)

/-- **A counted loop** reads the encodings of its items, and makes something of them. -/
theorem reads_counted {σ : Type} (what : String) (unit : Nat) {body : σ → M σ} (encode : ι → Bytes)
    (add : σ → ι → σ) (start : σ) (make : σ → β) {items : List ι} (nonempty : items ≠ [])
    (small : items.length ≤ u32Max) (positive : 0 < unit)
    (wide : ∀ item ∈ items, unit ≤ (encode item).length)
    (turn : ∀ done item rest, items = done ++ item :: rest →
      Reads (body (done.foldl add start)) (encode item) (add (done.foldl add start) item)) :
    Reads (count what unit >>= fun count => Cursor.repeatM body count start >>= fun final =>
        pure (make final))
      (u32Bytes items.length ++ items.flatMap encode) (make (items.foldl add start)) := by
  have room : items.length * unit ≤ (items.flatMap encode).length := by
    rw [List.length_flatMap]
    exact length_mul_le_sum wide
  simp only [count, bind_assoc, pure_bind]
  refine (reads_u32 small).bind (Reads.remaining fun left enough => ?_)
  have passes : ¬ (items.length = 0 ∨ left / unit < items.length) := by
    rw [not_or, Nat.not_lt]
    exact ⟨fun empty => nonempty (List.length_eq_zero_iff.mp empty),
      (Nat.le_div_iff_mul_le positive).mpr (room.trans enough)⟩
  exact (Reads.reject passes _).skip ((Reads.repeatM body encode add start items turn).map make)

end Read

/-! ### Values -/

theorem OrdMap.foldl_add_keys (members : OrdSet Bytes) : members.keys.foldl OrdMap.add ∅ = members :=
  OrdMap.ext_mem fun key => by
    rw [OrdMap.mem_foldl_add, OrdMap.mem_keys]
    exact or_iff_left (OrdMap.not_mem_empty key)

namespace SortedSet

/-- A sorted set is told by its member index. -/
theorem eq_of_members {first second : SortedSet} (same : first.members = second.members) :
    first = second := by
  obtain ⟨members, ordered, consistent⟩ := first
  obtain ⟨members', ordered', consistent'⟩ := second
  obtain rfl : members = members' := same
  obtain rfl : ordered = ordered' := OrdMap.ext_mem fun entry => by
    obtain ⟨score, member⟩ := entry
    exact (consistent score member).trans (consistent' score member).symm
  rfl

theorem members_insert (z : SortedSet) (member : Bytes) (score : Score) :
    (z.insert member score).2.2.members = z.members.insert member score := by
  by_cases same : z.members.get? member = some score
  · have kept : (z.insert member score).2.2 = z := by
      unfold insert
      rw [if_pos same]
    rw [kept]
    refine OrdMap.ext_get? fun key => ?_
    rw [OrdMap.get?_insert]
    split_ifs with here
    · rw [here, same]
    · rfl
  · unfold insert
    rw [if_neg same]

/-- Insert an entry of a score order. -/
def extend (z : SortedSet) (entry : Score × Bytes) : SortedSet :=
  (z.insert entry.2 entry.1).2.2

theorem members_foldl_extend (entries : List (Score × Bytes)) (z : SortedSet) :
    (entries.foldl extend z).members =
      (entries.map Prod.swap).foldl (fun acc entry => acc.insert entry.1 entry.2) z.members := by
  induction entries generalizing z with
  | nil => rfl
  | cons entry entries ih =>
    rw [List.foldl_cons, ih, List.map_cons, List.foldl_cons]
    unfold extend
    rw [members_insert]
    rfl

theorem mem_iter {score : Score} {member : Bytes} :
    (score, member) ∈ z.iter ↔ z.members.get? member = some score := by
  rw [← z.consistent, ← OrdMap.mem_keys]
  constructor
  · intro found
    obtain ⟨entry, inside, same⟩ := List.mem_map.mp found
    exact same ▸ inside
  · exact fun inside => List.mem_map.mpr ⟨_, inside, rfl⟩

/-- Each member stands once in the score order. -/
theorem nodup_iter (z : SortedSet) : (z.iter.map Prod.snd).Nodup := by
  refine List.Nodup.map_on ?_ ((OrdMap.nodup_keys z.ordered).map ofLex.injective)
  rintro ⟨score, member⟩ first ⟨score', member'⟩ second (same : member = member')
  subst same
  have scores := (mem_iter.mp first).symm.trans (mem_iter.mp second)
  rw [Option.some.inj scores]

theorem length_iter (z : SortedSet) : z.iter.length = z.len := by
  have same : (z.iter.map Prod.snd).Perm z.members.keys := by
    refine (List.perm_ext_iff_of_nodup (nodup_iter z) (OrdMap.nodup_keys _)).mpr fun member => ?_
    rw [OrdMap.mem_keys, OrdMap.mem_iff]
    constructor
    · intro found
      obtain ⟨⟨score, _⟩, inside, rfl⟩ := List.mem_map.mp found
      exact ⟨score, mem_iter.mp inside⟩
    · rintro ⟨score, found⟩
      exact List.mem_map.mpr ⟨_, mem_iter.mpr found, rfl⟩
  have sizes := same.length_eq
  rwa [List.length_map, OrdMap.keys, List.length_map] at sizes

/-- Inserting the score order into an empty set gives the set back. -/
theorem foldl_iter (z : SortedSet) : z.iter.foldl extend empty = z := by
  refine eq_of_members ?_
  rw [members_foldl_extend]
  refine OrdMap.ext_get? fun member => Option.ext fun score => ?_
  have swapped : ((z.iter.map Prod.swap).reverse.map Prod.fst).Nodup := by
    rw [List.map_reverse, List.nodup_reverse, List.map_map]
    exact nodup_iter z
  rw [OrdMap.foldl_insert_get?, show (empty.members.get? member) = none from rfl, Option.or_none,
    ← mem_iter]
  constructor
  · intro found
    have inside := List.mem_reverse.mp (OrdMap.mem_of_find_eq_some found)
    obtain ⟨entry, inside, same⟩ := List.mem_map.mp inside
    rwa [← Prod.swap_eq_iff_eq_swap.mpr same.symm] at inside
  · intro inside
    exact OrdMap.find_eq_some_of_mem swapped
      (List.mem_reverse.mpr (List.mem_map.mpr ⟨_, inside, rfl⟩))

end SortedSet

theorem Score.new_value (score : Score) : Score.new score.value = some score := by
  obtain ⟨value, notNaN, canonical⟩ := score
  unfold Score.new
  rw [dif_pos notNaN]
  split_ifs with zero
  · have sign := canonical zero
    unfold F64.isZero F64.magnitude at zero
    unfold F64.negative at sign
    have small : value.bits.toNat < 2 ^ 63 := by simpa using sign
    have bits : value.bits = 0#64 := by
      refine BitVec.eq_of_toNat_eq ?_
      have none_ := of_decide_eq_true zero
      rwa [Nat.mod_eq_of_lt small] at none_
    have same : F64.ofBits 0 = value := congrArg F64.mk bits.symm
    simp only [same]
  · rfl

/-- What the encoder and the reader make of a value that was given a size. -/
structure Value.Readable (value : Value) (size : Nat) (tag : Byte) (text : Bytes) : Prop where
  tagged : value.tag = .ok tag
  kind : tag.val = 1 ∨ (3 ≤ tag.val ∧ tag.val ≤ 6)
  encodes : value.encode = .ok text
  length_eq : text.length = size
  reads : Reads (Read.value tag.val) text value

/-- The length of a counted collection's encoding. -/
theorem Counted.length_eq {items : List ι} {good : ι → Prop}
    (counted : Counted items cost good size) {encode : ι → Bytes}
    (exact_ : ∀ item, (encode item).length = cost item) :
    (u32Bytes items.length ++ items.flatMap encode).length = size := by
  rw [counted.total_eq, List.length_append, length_u32Bytes, List.length_flatMap]
  simp only [exact_]

namespace Read

theorem reads_score (score : Score) : Reads (Read.score score.value.bits.toNat) [] score := by
  have same : F64.ofBits score.value.bits.toNat = score.value :=
    congrArg F64.mk (BitVec.eq_of_toNat_eq (Nat.mod_eq_of_lt score.value.bits.isLt))
  unfold Read.score
  rw [same, Score.new_value]
  exact Reads.pure score

theorem reads_scored {entry : Score × Bytes} (fits : entry.2.length ≤ u32Max)
    (new : entry.2 ∉ z.members) :
    Reads (scored z) (encodeBlob entry.2 ++ u64Bytes entry.1.value.bits.toNat) (z.extend entry) := by
  have absent := OrdMap.get?_eq_none_iff.mpr new
  have created : ¬ (z.insert entry.2 entry.1).1 = false := by
    unfold SortedSet.insert
    rw [absent, if_neg (by simp)]
    simp
  exact (reads_blob fits).bind ((reads_u64 entry.1.value.bits.isLt).last
    ((reads_score entry.1).skip ((Reads.reject created _).skip (Reads.pure _))))

theorem reads_member (fits : found.length ≤ u32Max) (new : found ∉ members) :
    Reads (member members) (encodeBlob found) (members.add found) :=
  (reads_blob fits).last ((Reads.reject new _).skip (Reads.pure _))

theorem reads_element (fits : found.length ≤ u32Max) :
    Reads (element values) (encodeBlob found) (values ++ [found]) :=
  (reads_blob fits).map (values ++ [·])

theorem reads_field {entry : Bytes × Bytes} (fits : entry.1.length ≤ u32Max)
    (fits' : entry.2.length ≤ u32Max) (new : entry.1 ∉ fields) :
    Reads (field fields) (encodeBlob entry.1 ++ encodeBlob entry.2)
      (fields.insert entry.1 entry.2) :=
  (reads_blob fits).bind ((reads_blob fits').last ((Reads.reject new _).skip (Reads.pure _)))

end Read

theorem mem_of_split {done rest : List α} {item : α} (split : items = done ++ item :: rest) :
    item ∈ items := by
  simp [split]

theorem foldl_concat (f : α → β) (start : List β) (items : List α) :
    items.foldl (fun done item => done ++ [f item]) start = start ++ items.map f := by
  induction items generalizing start with
  | nil => simp
  | cons item items ih =>
    rw [List.foldl_cons, ih, List.append_assoc, List.singleton_append, List.map_cons]

/-- Each step of a collection's size adds one blob. -/
theorem blob_step {next : Nat} (ok : (blobSize value >>= fun more => addSize size more) = .ok next) :
    value.length ≤ u32Max ∧ next = size + (4 + value.length) := by
  obtain ⟨blob, blobOk, ok⟩ := bind_eq_ok ok
  obtain ⟨fits, rfl⟩ := blobSize_eq_ok blobOk
  exact ⟨fits, addSize_eq_ok ok⟩

theorem sortedSet_counted {members : SortedSet}
    (sized : (Value.sortedSet members).encodedBytes = .ok size) :
    Counted members.iter (fun entry => 4 + entry.2.length + 8) (fun entry => entry.2.length ≤ u32Max)
      size := by
  refine countedSize_eq_ok members.length_iter (fun size entry next ok => ?_) sized
  obtain ⟨blob, blobOk, ok⟩ := bind_eq_ok ok
  obtain ⟨fits, rfl⟩ := blobSize_eq_ok blobOk
  obtain ⟨sum, sumOk, ok⟩ := bind_eq_ok ok
  obtain rfl := addSize_eq_ok sumOk
  exact ⟨fits, by rw [addSize_eq_ok ok]; omega⟩

theorem sortedSet_readable {members : SortedSet}
    (sized : (Value.sortedSet members).encodedBytes = .ok size) :
    ∃ text, (Value.sortedSet members).Readable size 6 text := by
  have counted := sortedSet_counted sized
  refine ⟨_, rfl, .inr (by decide), rfl, ?_, ?_⟩
  · exact counted.length_eq fun entry => by simp
  · have loop := Read.reads_counted "sorted member count" 12 (fun entry : Score × Bytes =>
        encodeBlob entry.2 ++ u64Bytes entry.1.value.bits.toNat)
      SortedSet.extend .empty Value.sortedSet counted.nonempty counted.small (by decide)
      (fun entry _ => by simp) fun done entry rest split =>
        Read.reads_scored (counted.each entry (mem_of_split split)) ?_
    · rw [members.foldl_iter, members.length_iter] at loop
      exact loop
    · rw [SortedSet.members_foldl_extend, OrdMap.mem_foldl_insert, List.map_map, not_or]
      exact ⟨FailingProgram.fresh_of_nodup members.nodup_iter split, OrdMap.not_mem_empty _⟩

theorem set_counted (sized : (Value.set members).encodedBytes = .ok size) :
    Counted members.keys (fun member => 4 + member.length) (fun member => member.length ≤ u32Max) size :=
  countedSize_eq_ok (List.length_map _) (fun _ _ _ ok => blob_step ok) sized

theorem set_readable (sized : (Value.set members).encodedBytes = .ok size) :
    ∃ text, (Value.set members).Readable size 5 text := by
  have keys : members.keys.length = members.size := List.length_map _
  have counted := set_counted sized
  refine ⟨_, rfl, .inr (by decide), rfl, ?_, ?_⟩
  · exact counted.length_eq length_encodeBlob
  · have loop := Read.reads_counted "member count" 4 encodeBlob OrdMap.add ∅ Value.set
      counted.nonempty counted.small (by decide) (fun member _ => by simp)
      fun done member rest split => Read.reads_member (counted.each member (mem_of_split split)) ?_
    · rw [OrdMap.foldl_add_keys, keys] at loop
      exact loop
    · rw [OrdMap.mem_foldl_add, not_or]
      refine ⟨?_, OrdMap.not_mem_empty _⟩
      have nodup : (members.keys.map id).Nodup := by
        rw [List.map_id]
        exact OrdMap.nodup_keys members
      simpa using FailingProgram.fresh_of_nodup nodup split

theorem list_counted (sized : (Value.list values).encodedBytes = .ok size) :
    Counted values (fun value => 4 + value.length) (fun value => value.length ≤ u32Max) size :=
  countedSize_eq_ok rfl (fun _ _ _ ok => blob_step ok) sized

theorem list_readable (sized : (Value.list values).encodedBytes = .ok size) :
    ∃ text, (Value.list values).Readable size 4 text := by
  have counted := list_counted sized
  refine ⟨_, rfl, .inr (by decide), rfl, counted.length_eq length_encodeBlob, ?_⟩
  have loop := Read.reads_counted "element count" 4 encodeBlob (fun done value => done ++ [value]) []
    Value.list counted.nonempty counted.small (by decide) (fun value _ => by simp)
    fun done value rest split => Read.reads_element (counted.each value (mem_of_split split))
  have rebuilt : values.foldl (fun done value => done ++ [value]) [] = values := by
    simpa using foldl_concat id [] values
  rw [rebuilt] at loop
  exact loop

theorem hash_counted (sized : (Value.hash fields).encodedBytes = .ok size) :
    Counted fields.entries (fun entry => 4 + entry.1.length + (4 + entry.2.length))
      (fun entry => entry.1.length ≤ u32Max ∧ entry.2.length ≤ u32Max) size := by
  refine countedSize_eq_ok rfl (fun size entry next ok => ?_) sized
  obtain ⟨blob, blobOk, ok⟩ := bind_eq_ok ok
  obtain ⟨fits, rfl⟩ := blobSize_eq_ok blobOk
  obtain ⟨sum, sumOk, ok⟩ := bind_eq_ok ok
  obtain rfl := addSize_eq_ok sumOk
  obtain ⟨fits', rfl⟩ := blob_step ok
  exact ⟨⟨fits, fits'⟩, Nat.add_assoc ..⟩

theorem hash_readable (sized : (Value.hash fields).encodedBytes = .ok size) :
    ∃ text, (Value.hash fields).Readable size 3 text := by
  have counted := hash_counted sized
  refine ⟨_, rfl, .inr (by decide), rfl, counted.length_eq fun entry => by simp, ?_⟩
  have loop := Read.reads_counted "field count" 8 (fun entry : Bytes × Bytes =>
      encodeBlob entry.1 ++ encodeBlob entry.2)
    (fun fields entry => fields.insert entry.1 entry.2) ∅ Value.hash counted.nonempty counted.small
    (by decide) (fun entry _ => by simp; omega) fun done entry rest split =>
      Read.reads_field (counted.each entry (mem_of_split split)).1
        (counted.each entry (mem_of_split split)).2 ?_
  · have rebuilt : fields.entries.foldl (fun fields entry => fields.insert entry.1 entry.2) ∅ =
        fields := OrdMap.ofList_sorted fields.sorted
    rw [rebuilt] at loop
    exact loop
  · rw [OrdMap.mem_foldl_insert, not_or]
    exact ⟨FailingProgram.fresh_of_nodup (OrdMap.nodup_keys fields) split, OrdMap.not_mem_empty _⟩

/-- **A value that was given a size** is encoded in that many bytes and read back. -/
theorem Value.readable {value : Value} (sized : value.encodedBytes = .ok size) :
    ∃ tag text, value.Readable size tag text := by
  cases value with
  | memory collection => cases sized
  | string value =>
    obtain ⟨fits, rfl⟩ := blobSize_eq_ok sized
    exact ⟨1, _, rfl, .inl rfl, rfl, length_encodeBlob value,
      (Read.reads_blob fits).map Value.string⟩
  | hash fields => exact ⟨3, hash_readable sized⟩
  | list values => exact ⟨4, list_readable sized⟩
  | set members => exact ⟨5, set_readable sized⟩
  | sortedSet members => exact ⟨6, sortedSet_readable sized⟩

/-! ### Mutations and records -/

/-- The deadline of a mutation is a signed 64-bit integer. -/
def Mutation.Typed : Mutation → Prop
  | put _ _ expiresAtUnixMs => Read.Accepts false expiresAtUnixMs
  | delete _ => True

/-- What the encoder and a reader make of an item that was given a size. -/
structure Readable {μ : Type} (encode : μ → Except FormatError Bytes) (reader : Read.M μ) (item : μ)
    (size : Nat) (text : Bytes) : Prop where
  encodes : encode item = .ok text
  length_eq : text.length = size
  five : 5 ≤ size
  reads : Reads reader text item

/-- The size of a mutation: tag and key, and what follows them. -/
def keyedSize (key : Bytes) (extra : Nat) : Except FormatError Nat :=
  if u32Max < key.length then .error .limit
  else do addSize (← addSize key.length 5) extra

theorem keyedSize_eq_ok {key : Bytes} {extra : Nat} (ok : keyedSize key extra = .ok size) :
    key.length ≤ u32Max ∧ size = 5 + key.length + extra := by
  unfold keyedSize at ok
  split_ifs at ok with long
  obtain ⟨base, baseOk, ok⟩ := bind_eq_ok ok
  obtain rfl := addSize_eq_ok baseOk
  obtain rfl := addSize_eq_ok ok
  exact ⟨Nat.le_of_not_lt long, by omega⟩

theorem Mutation.encodedBytes_put (key : Bytes) (value : Value) (expiresAtUnixMs : Option Int) :
    (Mutation.put key value expiresAtUnixMs).encodedBytes =
      (value.encodedBytes >>= fun size => addSize size 9 >>= keyedSize key) := rfl

theorem Mutation.encodedBytes_delete (key : Bytes) :
    (Mutation.delete key).encodedBytes = keyedSize key 0 := rfl

/-- **A mutation that was given a size** is encoded in that many bytes and read back. -/
theorem Mutation.readable {mutation : Mutation} (sized : mutation.encodedBytes = .ok size)
    (typed : mutation.Typed) :
    ∃ text, Readable Mutation.encode Read.mutation mutation size text := by
  cases mutation with
  | delete key =>
    rw [Mutation.encodedBytes_delete] at sized
    obtain ⟨fits, rfl⟩ := keyedSize_eq_ok sized
    exact ⟨_, rfl, by simp; omega, by omega,
      (Read.reads_byte 2).bind ((Read.reads_blob fits).last (Reads.pure _))⟩
  | put key value expiresAtUnixMs =>
    rw [Mutation.encodedBytes_put] at sized
    obtain ⟨valueSize, valueOk, sized⟩ := bind_eq_ok sized
    obtain ⟨extra, extraOk, sized⟩ := bind_eq_ok sized
    obtain rfl := addSize_eq_ok extraOk
    obtain ⟨fits, rfl⟩ := keyedSize_eq_ok sized
    obtain ⟨tag, body, readable⟩ := value.readable valueOk
    refine ⟨tag :: (encodeBlob key ++ (body ++ encodeDeadline expiresAtUnixMs)), ?_, ?_, by omega, ?_⟩
    · show (value.tag >>= fun tag => value.encode >>= fun body => _) = _
      rw [readable.tagged, readable.encodes]
      rfl
    · simp only [List.length_cons, List.length_append, length_encodeBlob, length_encodeDeadline,
        readable.length_eq]
      omega
    · refine (Read.reads_byte tag).bind ((Read.reads_blob fits).bind ?_)
      rw [if_pos readable.kind]
      exact readable.reads.bind ((Read.reads_deadline typed).map (Mutation.put key value))

/-- The numbers of a record are those its machine types hold. -/
def Record.Typed {μ : Type} (typed : μ → Prop) : Record μ → Prop
  | snapshot mutation => typed mutation
  | sealed sequence entries digest => sequence < 2 ^ 64 ∧ entries < 2 ^ 64 ∧ digest ≤ u32Max
  | batch sequence _ mutations => sequence < 2 ^ 64 ∧ ∀ mutation ∈ mutations, typed mutation

theorem Read.reads_sealed {entries digest : Nat} (fits : sequence < 2 ^ 64)
    (fits' : entries < 2 ^ 64) (fits'' : digest ≤ u32Max) :
    Reads (Read.sealed : Read.M (Record μ)) (u64Bytes sequence ++ (u64Bytes entries ++ u32Bytes digest))
      (.sealed sequence entries digest) :=
  (Read.reads_u64 fits).bind ((Read.reads_u64 fits').bind
    ((Read.reads_u32 fits'').map (Record.sealed sequence entries)))

theorem Read.reads_origin (origin : MutationOrigin) :
    Reads Read.origin [origin.tag] origin := by
  cases origin with
  | client => exact (Read.reads_byte 1).last (Reads.pure _)
  | expiration => exact (Read.reads_byte 2).last (Reads.pure _)

/-- Items that were given sizes, with their encodings. -/
theorem mapM_readable {size : μ → Nat} {items : List μ}
    (each : ∀ item ∈ items, ∃ text, Readable encode reader item (size item) text) :
    ∃ pairs : List (μ × Bytes), pairs.map Prod.fst = items ∧
      items.mapM encode = .ok (pairs.map Prod.snd) ∧
      ∀ pair ∈ pairs, Readable encode reader pair.1 (size pair.1) pair.2 := by
  induction items with
  | nil => exact ⟨[], rfl, rfl, nofun⟩
  | cons item items ih =>
    obtain ⟨first, rest⟩ := List.forall_mem_cons.mp each
    obtain ⟨text, readable⟩ := first
    obtain ⟨pairs, same, encodes, others⟩ := ih rest
    refine ⟨(item, text) :: pairs, by rw [List.map_cons, same], ?_,
      List.forall_mem_cons.mpr ⟨readable, others⟩⟩
    rw [List.mapM_cons, readable.encodes, encodes]
    rfl

/-- The total length of the encodings. -/
theorem length_flatten_pairs {size : μ → Nat} {pairs : List (μ × Bytes)}
    (each : ∀ pair ∈ pairs, Readable encode reader pair.1 (size pair.1) pair.2) :
    (pairs.map Prod.snd).flatten.length = ((pairs.map Prod.fst).map size).sum ∧
      pairs.length * 5 ≤ (pairs.map Prod.snd).flatten.length := by
  induction pairs with
  | nil => exact ⟨rfl, le_rfl⟩
  | cons pair pairs ih =>
    obtain ⟨first, rest⟩ := List.forall_mem_cons.mp each
    obtain ⟨sum, five⟩ := ih rest
    have here := first.length_eq
    have wide := first.five
    simp only [List.map_cons, List.flatten_cons, List.length_append, List.sum_cons,
      List.length_cons, Nat.succ_mul]
    omega

/-- What a record's payload is, and how it is read. -/
structure Record.Readable {μ : Type} (encode : μ → Except FormatError Bytes)
    (reader : Read.M (Record μ)) (record : Record μ) (size : Nat) (payload : Bytes) : Prop where
  encodes : record.payload encode = .ok payload
  length_eq : payload.length = size
  positive : 0 < size
  reads : Reads reader payload record

theorem Limits.refuses_eq_false {count : Nat} (accepted : ¬ limits.refuses count = true) :
    count ≠ 0 ∧ count ≤ limits.maxMutations ∧ count ≤ u32Max := by
  simpa [Limits.refuses, and_assoc] using accepted

/-- The size of a mutation that has one. -/
def Mutation.sizeOf (mutation : Mutation) : Nat :=
  mutation.encodedBytes.toOption.getD 0

/-- What a batch that was given a size consists of. -/
theorem Record.size_batch {origin : MutationOrigin} {mutations : List Mutation}
    (sized : (Record.batch sequence origin mutations).size limits = .ok size) :
    limits.refuses mutations.length = false ∧
      (∀ mutation ∈ mutations, mutation.encodedBytes = .ok mutation.sizeOf) ∧
      size = 14 + (mutations.map Mutation.sizeOf).sum := by
  unfold Record.size at sized
  dsimp only at sized
  split_ifs at sized with accepted
  obtain ⟨each, total⟩ := foldlM_size Mutation.sizeOf
    (fun mutation => mutation.encodedBytes = .ok mutation.sizeOf) (fun size mutation next ok => by
      split at ok
      · rename_i more found
        have same : mutation.sizeOf = more := by
          rw [Mutation.sizeOf, found]
          rfl
        exact ⟨same ▸ found, same ▸ addSize_eq_ok ok⟩
      · cases ok) sized
  exact ⟨Bool.eq_false_iff.mpr accepted, each, total⟩

theorem Record.readable (sized : record.size limits = .ok size)
    (typed : record.Typed Mutation.Typed) :
    ∃ payload, record.Readable Mutation.encode (Read.record limits) size payload := by
  cases record with
  | snapshot mutation =>
    obtain ⟨inner, innerOk, sized⟩ := bind_eq_ok sized
    obtain rfl := addSize_eq_ok sized
    obtain ⟨text, readable⟩ := mutation.readable innerOk typed
    refine ⟨1 :: text, ?_, ?_, by omega, ?_⟩
    · show (mutation.encode >>= fun text => _) = _
      rw [readable.encodes]
      rfl
    · rw [List.length_cons, readable.length_eq, Nat.add_comm]
    · exact (Read.reads_byte 1).bind (readable.reads.map Record.snapshot)
  | sealed sequence entries digest =>
    cases sized
    obtain ⟨fits, fits', fits''⟩ := typed
    exact ⟨_, rfl, by simp, by decide,
      (Read.reads_byte 2).bind (Read.reads_sealed fits fits' fits'')⟩
  | batch sequence origin mutations =>
    obtain ⟨fits, typed⟩ := typed
    obtain ⟨accepted, each, rfl⟩ := Record.size_batch sized
    obtain ⟨nonempty, few, small⟩ := Limits.refuses_eq_false (Bool.eq_false_iff.mp accepted)
    have parts : ∀ mutation ∈ mutations, ∃ text,
        Sider.Readable Mutation.encode Read.mutation mutation mutation.sizeOf text :=
      fun mutation inside => mutation.readable (each mutation inside) (typed mutation inside)
    obtain ⟨pairs, rfl, encodes, readable⟩ := mapM_readable parts
    obtain ⟨sum, five⟩ := length_flatten_pairs readable
    rw [List.length_map] at nonempty few small
    refine ⟨3 :: (u64Bytes sequence ++ ([origin.tag] ++ (u32Bytes (pairs.map Prod.fst).length ++
      (pairs.map Prod.snd).flatten))), ?_, ?_, by omega, ?_⟩
    · show (List.mapM Mutation.encode _ >>= fun encoded => _) = _
      rw [encodes]
      rfl
    · simp only [List.length_cons, List.length_append, length_u64Bytes, length_u32Bytes, sum]
      simp
      omega
    · rw [List.length_map, ← List.flatMap_def]
      refine (Read.reads_byte 3).bind ((Read.reads_u64 fits).bind ((Read.reads_origin origin).bind
        ((Read.reads_u32 small).bind (Reads.remaining fun left enough => ?_))))
      rw [List.flatMap_def] at enough
      refine (Reads.reject (by omega) _).skip (Reads.last (Reads.repeatM _ Prod.snd
        (fun done pair => done ++ [pair.1]) [] pairs fun done pair rest split => ?_) ?_)
      · exact (readable pair (mem_of_split split)).reads.map fun mutation => _ ++ [mutation]
      · rw [foldl_concat Prod.fst, List.nil_append]
        exact Reads.pure _

/-- What `frameRecord` accepts. -/
theorem frameRecord_eq_ok {payload : Except FormatError Bytes}
    (ok : frameRecord limits size payload = .ok text) :
    size ≤ limits.maxRecordBytes ∧ size ≤ maxRecordBytes ∧
      ∃ body, payload = .ok body ∧ text = frame size body := by
  unfold frameRecord at ok
  split_ifs at ok with refused
  rw [not_or, Nat.not_lt, Nat.not_lt] at refused
  obtain ⟨body, found, ok⟩ := bind_eq_ok ok
  exact ⟨refused.1, refused.2, body, found, (Except.ok.inj ok).symm⟩

/-- The frame of a record that is read back from its payload. -/
theorem Record.Readable.framed {reader : Read.M (Record μ)} {record : Record μ} {payload : Bytes}
    (readable : record.Readable encode reader size payload)
    (framed : frameRecord limits size (record.payload encode) = .ok text)
    {decode : Bytes → Except FormatError ρ} {result : ρ}
    (decodes : Cursor.whole reader (.corrupt "bytes extras") payload = .ok record →
      decode payload = .ok result) : IsFrame decode limits text result := by
  obtain ⟨configured, fixed, body, found, rfl⟩ := frameRecord_eq_ok framed
  cases readable.encodes.symm.trans found
  have size_eq := readable.length_eq
  have positive := readable.positive
  subst size_eq
  exact ⟨payload, ⟨positive, configured, fixed⟩,
    decodes (Cursor.whole_of_reads readable.reads _), rfl⟩

section

variable (encoded : record.encode limits = .ok text)

include encoded

variable (typed : record.Typed Mutation.Typed)

include typed

/-- **A record that the encoder accepted** is framed. -/
theorem Record.encode_framed (convert : Record Mutation → ρ) :
    IsFrame (fun payload => convert <$> Record.decode limits payload) limits text
      (convert record) := by
  obtain ⟨size, sized, framed⟩ := bind_eq_ok encoded
  obtain ⟨payload, readable⟩ := Record.readable sized typed
  refine readable.framed framed fun decodes => ?_
  rw [Record.decode, decodes]
  rfl

theorem Record.encode_isFrame : IsFrame (Record.decode limits) limits text record := by
  obtain ⟨size, sized, framed⟩ := bind_eq_ok encoded
  obtain ⟨payload, readable⟩ := Record.readable sized typed
  exact readable.framed framed id

/-- A framed record takes its predicted size and the twelve bytes of the frame. -/
theorem Record.encode_length : ∃ size, record.size limits = .ok size ∧ text.length = size + 12 := by
  obtain ⟨size, sized, framed⟩ := bind_eq_ok encoded
  obtain ⟨payload, readable⟩ := Record.readable sized typed
  obtain ⟨_, _, body, found, rfl⟩ := frameRecord_eq_ok framed
  cases readable.encodes.symm.trans found
  exact ⟨size, sized, by rw [length_frame, readable.length_eq]⟩

end

/-- **Round trip of a version 1 record**: it takes its predicted size and the twelve bytes of the
frame, it is read back whatever follows it, any beginning of it is an incomplete tail, and what was
read is encoded to the same bytes. -/
theorem Record.encode_roundTrip {limits : Limits} {record : Record Mutation} {text : Bytes}
    (encoded : record.encode limits = .ok text) (typed : record.Typed Mutation.Typed) :
    (∃ size, record.size limits = .ok size ∧ text.length = size + 12) ∧
    (∀ rest, readRecord (Record.decode limits) limits (text ++ rest) = .ok (.item record rest)) ∧
    (∀ cut, cut <+: text → cut ≠ [] → cut ≠ text →
      readRecord (Record.decode limits) limits cut = .ok .torn) ∧
    (∀ rest decoded left,
      readRecord (Record.decode limits) limits (text ++ rest) = .ok (.item decoded left) →
        decoded.encode limits = .ok text) := by
  have frames := (Record.encode_isFrame encoded typed).frames
  refine ⟨Record.encode_length encoded typed, frames.reads, frames.torn,
    fun rest decoded left read => ?_⟩
  obtain ⟨same, _⟩ := FrameLog.Next.item.inj (Except.ok.inj (read.symm.trans (frames.reads rest)))
  rw [same, encoded]

/-- A hash with a deadline. -/
def hashRecord : Record Mutation :=
  .snapshot (.put (Bytes.ascii "h") (.hash (.ofList [(Bytes.ascii "f", Bytes.ascii "v")])) (some 7))

theorem Record.encode_roundTrip_hash :
    ∃ text, hashRecord.encode ⟨64, 1⟩ = .ok text ∧ text.length = 30 + 12 ∧
      readRecord (Record.decode ⟨64, 1⟩) ⟨64, 1⟩ (text ++ [0]) = .ok (.item hashRecord [0]) := by
  obtain ⟨text, encoded⟩ : ∃ text, hashRecord.encode ⟨64, 1⟩ = .ok text := ⟨_, rfl⟩
  have typed : hashRecord.Typed Mutation.Typed := by
    intro deadline found
    cases found
    exact ⟨by decide, nofun⟩
  obtain ⟨⟨size, sized, length⟩, reads, _⟩ := Record.encode_roundTrip encoded typed
  cases sized
  exact ⟨text, encoded, length, reads [0]⟩

end Sider
