/-
**Memory collections: descriptors, members, guarded edits and search.**

A `Collection` keeps its descriptor, its members by id, and two cached sizes. What every collection
satisfies — a valid descriptor, members valid under it and stored at their own id, exact cached
sizes — is the field `valid`, so a collection that breaks it cannot be built.

* `Collection.applyEdits` — at most 64 edits in strictly increasing id order, or an error and no
  collection; `applyEdits_ok` says what an accepted list of edits gives.
* `Collection.validateKey` — the quotas of one key.
* `Collection.searchWithVisibilityStats` — the bounded top-k over the members that pass
  `searchable`.
-/

import Sider.Lib.OrdMap
import Sider.Lib.Float64
import Sider.Command.Options

namespace Sider

open Float64

/-! ### Limits and errors -/

def maxDimension : Nat := 4096
def maxMembers : Nat := 1024
def maxCollectionBytes : Nat := 8388608
def maxComponents : Nat := 1048576
def maxSearchK : Nat := 128
def maxEdits : Nat := 64

inductive MemoryError where
  | argument
  | dimension
  | nonFinite
  | identity
  | deadline
  | quota
  | editOrder
  | missingMember
  deriving DecidableEq, Repr

def bounded (value : Bytes) (minimum maximum : Nat) : Except MemoryError Unit :=
  if minimum ≤ value.length ∧ value.length ≤ maximum then .ok () else .error .argument

theorem bounded_eq_ok {value : Bytes} {minimum maximum : Nat} :
    bounded value minimum maximum = .ok () ↔ minimum ≤ value.length ∧ value.length ≤ maximum := by
  unfold bounded
  split_ifs with fits <;> simp [fits]

/-- Fail with `error` when the condition holds. -/
def rejectWhen {ε : Type} (condition : Bool) (error : ε) : Except ε Unit :=
  if condition then .error error else .ok ()

theorem rejectWhen_eq_ok {ε : Type} {condition : Bool} {error : ε} :
    rejectWhen condition error = .ok () ↔ condition = false := by
  unfold rejectWhen
  cases condition <;> simp

/-! ### Descriptors and members -/

/-- The fixed schema of a collection: dimension and model identity. -/
structure Descriptor where
  dimension : Nat
  provider : Bytes
  model : Bytes
  revision : Bytes
  transform : Bytes
  deriving DecidableEq, Repr

namespace Descriptor

def texts (d : Descriptor) : List Bytes :=
  [d.provider, d.model, d.revision, d.transform]

def validate (d : Descriptor) : Except MemoryError Unit := do
  rejectWhen (!(1 ≤ d.dimension && d.dimension ≤ maxDimension)) .dimension
  d.texts.forM fun text => bounded text 1 256

def logicalBytes (d : Descriptor) : Nat :=
  256 + d.provider.length + d.model.length + d.revision.length + d.transform.length

def encodedBytes (d : Descriptor) : Nat :=
  26 + d.provider.length + d.model.length + d.revision.length + d.transform.length

end Descriptor

inductive Scalar where
  | bytes (value : Bytes)
  | integer (value : Int)
  | bool (value : Bool)
  deriving DecidableEq, Repr

namespace Scalar

def logicalBytes : Scalar → Nat
  | bytes value => value.length
  | integer _ => 8
  | bool _ => 1

def canonicalBytes : Scalar → Nat
  | bytes value => value.length
  | integer value => (Bytes.decimal value).length
  | bool _ => 1

def encodedBytes : Scalar → Nat
  | bytes value => 5 + value.length
  | integer _ => 9
  | bool _ => 2

/-- Only byte scalars have a length limit. -/
def boundedBytes : Scalar → Except MemoryError Unit
  | bytes value => bounded value 0 4096
  | integer _ => .ok ()
  | bool _ => .ok ()

end Scalar

structure Member where
  id : Bytes
  nameSpace : Bytes
  content : Bytes
  vector : Bytes
  deadline : Option Int
  metadata : OrdMap Bytes Scalar
  provenance : OrdMap Bytes Bytes
  deriving DecidableEq

/-- The pattern of one little-endian binary32 coordinate is an infinity or a NaN. -/
def nonFiniteCoordinate (coordinate : Bytes) : Bool :=
  Bytes.littleEndian coordinate / 2 ^ 23 % 2 ^ 8 = 255

def nonFiniteVector (vector : Bytes) : Bool :=
  (Bytes.chunksExact 4 vector).any nonFiniteCoordinate

namespace Member

def chargeMetadata (aggregate : Nat) (entry : Bytes × Scalar) : Except MemoryError Nat := do
  bounded entry.1 1 64
  entry.2.boundedBytes
  match Machine.charge aggregate [entry.1.length, entry.2.canonicalBytes] with
  | some size => .ok size
  | none => .error .argument

def chargeProvenance (aggregate : Nat) (entry : Bytes × Bytes) : Except MemoryError Nat := do
  bounded entry.1 1 64
  bounded entry.2 0 4096
  match Machine.charge aggregate [entry.1.length, entry.2.length] with
  | some size => .ok size
  | none => .error .argument

def validate (m : Member) (d : Descriptor) : Except MemoryError Unit := do
  d.validate
  bounded m.id 1 256
  bounded m.nameSpace 0 256
  bounded m.content 0 65536
  rejectWhen (m.vector.length ≠ d.dimension * 4) .dimension
  rejectWhen (nonFiniteVector m.vector) .nonFinite
  rejectWhen (m.deadline.any (· ≤ 0)) .deadline
  rejectWhen (32 < m.metadata.size || 16 < m.provenance.size) .argument
  let aggregate ← m.metadata.entries.foldlM chargeMetadata 0
  let aggregate ← m.provenance.entries.foldlM chargeProvenance aggregate
  rejectWhen (32768 < aggregate) .argument

def logicalBytes (m : Member) : Nat :=
  256 + m.id.length + m.nameSpace.length + m.content.length + m.vector.length
    + m.metadata.total (fun field value => 64 + field.length + value.logicalBytes)
    + m.provenance.total (fun field value => 64 + field.length + value.length)

def encodedBytes (m : Member) : Nat :=
  33 + m.id.length + m.nameSpace.length + m.content.length + m.vector.length
    + m.metadata.total (fun field value => 4 + field.length + value.encodedBytes)
    + m.provenance.total (fun field value => 8 + field.length + value.length)

end Member

inductive Edit where
  | upsert (member : Member)
  | remove (id : Bytes)
  deriving DecidableEq

namespace Edit

def id : Edit → Bytes
  | upsert member => member.id
  | remove id => id

def encodedBytes : Edit → Nat
  | upsert member => 1 + member.encodedBytes
  | remove id => 5 + id.length

def validate (d : Descriptor) (edit : Edit) : Except MemoryError Unit :=
  match edit with
  | upsert member => member.validate d
  | remove _ => .ok ()

end Edit

/-- Every edit bounded, in strictly increasing id order, with valid members. -/
def validateEditsFrom (d : Descriptor) (previous : Option Bytes) : List Edit → Except MemoryError Unit
  | [] => .ok ()
  | edit :: rest => do
    bounded edit.id 1 256
    rejectWhen (previous.any (fun id => edit.id ≤ id)) .editOrder
    edit.validate d
    validateEditsFrom d (some edit.id) rest

def validateEdits (d : Descriptor) (edits : List Edit) : Except MemoryError Unit := do
  d.validate
  validateEditsFrom d none edits

/-! ### Collections -/

/-- What holds of every collection image. -/
structure Collection.Valid (descriptor : Descriptor) (members : OrdMap Bytes Member)
    (logicalBytes encodedBytes : Nat) : Prop where
  descriptor_ok : descriptor.validate = .ok ()
  member_ok : ∀ id member, members.get? id = some member →
    member.id = id ∧ member.validate descriptor = .ok ()
  logical_exact : logicalBytes =
    descriptor.logicalBytes + members.total fun _ member => member.logicalBytes
  encoded_exact : encodedBytes =
    descriptor.encodedBytes + 4 + members.total fun _ member => member.encodedBytes

/-- A collection image with exact cached sizes. -/
structure Collection where
  descriptor : Descriptor
  members : OrdMap Bytes Member
  logicalBytes : Nat
  encodedBytes : Nat
  valid : Collection.Valid descriptor members logicalBytes encodedBytes
  deriving DecidableEq

variable {descriptor : Descriptor} {edit : Edit} {edits : List Edit}

namespace Collection

/-- The quotas of a collection stored at `key`. -/
def checkQuota (descriptor : Descriptor) (members : OrdMap Bytes Member) (logicalBytes : Nat)
    (key : Bytes) : Except MemoryError Unit := do
  bounded key 1 256
  rejectWhen (maxMembers < members.size
    || (Machine.checkedMul members.size descriptor.dimension).all (maxComponents < ·)
    || (Machine.charge logicalBytes [128, key.length]).all (maxCollectionBytes < ·)) .quota

def validateKey (c : Collection) (key : Bytes) : Except MemoryError Unit :=
  checkQuota c.descriptor c.members c.logicalBytes key

theorem valid_new (checked : descriptor.validate = .ok ()) :
    Valid descriptor ∅ descriptor.logicalBytes (descriptor.encodedBytes + 4) where
  descriptor_ok := checked
  member_ok := fun id member found => by simp at found
  logical_exact := rfl
  encoded_exact := rfl

/-- An empty collection. -/
def new (descriptor : Descriptor) : Except MemoryError Collection :=
  match checked : descriptor.validate with
  | .error error => .error error
  | .ok () =>
    .ok ⟨descriptor, ∅, descriptor.logicalBytes, descriptor.encodedBytes + 4, valid_new checked⟩

/-- The mutable part of a candidate image while edits are applied. -/
structure Draft where
  members : OrdMap Bytes Member
  logicalBytes : Nat
  encodedBytes : Nat

/-- Drop the member an edit replaces or removes. -/
def Draft.take (draft : Draft) (edit : Edit) : Except MemoryError Draft :=
  match draft.members.get? edit.id with
  | some previous =>
    .ok ⟨draft.members.erase edit.id, draft.logicalBytes - previous.logicalBytes,
      draft.encodedBytes - previous.encodedBytes⟩
  | none =>
    match edit with
    | .remove _ => .error .missingMember
    | .upsert _ => .ok draft

def Draft.put (draft : Draft) (edit : Edit) : Except MemoryError Draft :=
  match edit with
  | .remove _ => .ok draft
  | .upsert member =>
    match Machine.checkedAdd draft.logicalBytes member.logicalBytes,
        Machine.checkedAdd draft.encodedBytes member.encodedBytes with
    | some logical, some encoded => .ok ⟨draft.members.insert member.id member, logical, encoded⟩
    | _, _ => .error .quota

def Draft.apply (draft : Draft) (edit : Edit) : Except MemoryError Draft := do
  let taken ← draft.take edit
  taken.put edit

variable {draft next : Draft}

namespace Draft

/-- The image a draft stands for is well formed. -/
def Ok (descriptor : Descriptor) (draft : Draft) : Prop :=
  Valid descriptor draft.members draft.logicalBytes draft.encodedBytes

variable (ok : draft.Ok descriptor)

include ok

theorem take_ok {taken : Draft} (took : draft.take edit = .ok taken) :
    taken.Ok descriptor ∧ taken.members = draft.members.erase edit.id := by
  unfold take at took
  cases found : draft.members.get? edit.id with
  | some previous =>
    simp only [found, Except.ok.injEq] at took
    subst took
    refine ⟨⟨ok.descriptor_ok, fun id member inside => ?_, ?_, ?_⟩, rfl⟩
    · rw [OrdMap.get?_erase] at inside
      split_ifs at inside
      exact ok.member_ok id member inside
    · have total := OrdMap.total_erase_of_some (fun _ member => Member.logicalBytes member) found
      have exact := ok.logical_exact
      dsimp only
      omega
    · have total := OrdMap.total_erase_of_some (fun _ member => Member.encodedBytes member) found
      have exact := ok.encoded_exact
      dsimp only
      omega
  | none =>
    rw [OrdMap.erase_of_get?_none found]
    cases edit with
    | remove id => simp [found] at took
    | upsert member =>
      simp only [found, Except.ok.injEq] at took
      subst took
      exact ⟨ok, rfl⟩

theorem put_ok (absent : draft.members.get? edit.id = none)
    (checked : edit.validate descriptor = .ok ()) (puts : draft.put edit = .ok next) :
    next.Ok descriptor := by
  cases edit with
  | remove id =>
    simp only [put, Except.ok.injEq] at puts
    exact puts ▸ ok
  | upsert member =>
    simp only [put] at puts
    split at puts
    · rename_i logical encoded logicalSum encodedSum
      simp only [Except.ok.injEq] at puts
      subst puts
      obtain ⟨_, logicalEq⟩ := Machine.checkedAdd_eq_some.mp logicalSum
      obtain ⟨_, encodedEq⟩ := Machine.checkedAdd_eq_some.mp encodedSum
      refine ⟨ok.descriptor_ok, fun id found inside => ?_, ?_, ?_⟩
      · rw [OrdMap.get?_insert] at inside
        split_ifs at inside with same
        · cases inside
          exact ⟨same.symm, checked⟩
        · exact ok.member_ok id found inside
      · have total := OrdMap.total_insert_of_none (fun _ member => Member.logicalBytes member)
          member absent
        have exact := ok.logical_exact
        simp only [Edit.id] at total
        dsimp only
        omega
      · have total := OrdMap.total_insert_of_none (fun _ member => Member.encodedBytes member)
          member absent
        have exact := ok.encoded_exact
        simp only [Edit.id] at total
        dsimp only
        omega
    · cases puts

/-- One accepted edit keeps the image well formed. -/
theorem apply_ok (checked : edit.validate descriptor = .ok ())
    (applied : draft.apply edit = .ok next) : next.Ok descriptor := by
  unfold apply at applied
  cases took : draft.take edit with
  | error error => simp [took, bind, Except.bind] at applied
  | ok taken =>
    rw [took] at applied
    obtain ⟨takenOk, members⟩ := take_ok ok took
    refine put_ok takenOk ?_ checked applied
    rw [members, OrdMap.get?_erase_self]

theorem foldlM_ok (checked : ∀ edit ∈ edits, edit.validate descriptor = .ok ())
    (applied : edits.foldlM apply draft = .ok next) : next.Ok descriptor := by
  induction edits generalizing draft with
  | nil =>
    cases applied
    exact ok
  | cons edit rest ih =>
    rw [List.foldlM_cons] at applied
    cases step : draft.apply edit with
    | error error => simp [step, bind, Except.bind] at applied
    | ok middle =>
      rw [step] at applied
      exact ih (apply_ok ok (checked edit List.mem_cons_self) step)
        (fun later member => checked later (List.mem_cons_of_mem _ member)) applied

end Draft

end Collection

theorem bind_eq_ok {ε α β : Type} {first : Except ε α} {next : α → Except ε β} {result : β}
    (ok : (first >>= next) = .ok result) : ∃ value, first = .ok value ∧ next value = .ok result := by
  cases first with
  | error error => cases ok
  | ok value => exact ⟨value, rfl, ok⟩

/-- A check that was passed. -/
theorem else_eq_ok {ε α : Type} {refused : Prop} [Decidable refused] {error : ε} {next : Except ε α}
    {result : α} (ok : (if refused then .error error else next) = .ok result) :
    ¬refused ∧ next = .ok result := by
  split_ifs at ok with passed
  exact ⟨passed, ok⟩

theorem seq_eq_ok {ε α : Type} {first : Except ε Unit} {next : Except ε α} {result : α} :
    (do first; next) = .ok result ↔ first = .ok () ∧ next = .ok result := by
  cases first with
  | error error => simp [bind, Except.bind]
  | ok => exact (and_iff_right rfl).symm

theorem forM_eq_ok {ε α : Type} {check : α → Except ε Unit} {items : List α} :
    items.forM check = .ok () ↔ ∀ item ∈ items, check item = .ok () := by
  induction items with
  | nil => exact iff_of_true rfl nofun
  | cons item items ih => rw [List.forall_mem_cons, ← ih, ← seq_eq_ok]; rfl

theorem mapError_eq_ok {ε δ α : Type} {result : Except ε α} {f : ε → δ} {value : α} :
    result.mapError f = .ok value ↔ result = .ok value := by
  cases result <;> simp [Except.mapError]

theorem validateEditsFrom_mem {previous : Option Bytes}
    (checked : validateEditsFrom descriptor previous edits = .ok ()) :
    ∀ edit ∈ edits, edit.validate descriptor = .ok () := by
  induction edits generalizing previous with
  | nil => intro edit member; cases member
  | cons first rest ih =>
    intro edit member
    obtain ⟨_, _, checked⟩ := bind_eq_ok checked
    obtain ⟨_, _, checked⟩ := bind_eq_ok checked
    obtain ⟨_, valid, checked⟩ := bind_eq_ok checked
    rcases List.mem_cons.mp member with here | there
    · exact here ▸ valid
    · exact ih checked edit there

theorem validateEdits_mem (checked : validateEdits descriptor edits = .ok ()) :
    ∀ edit ∈ edits, edit.validate descriptor = .ok () := by
  obtain ⟨_, _, checked⟩ := bind_eq_ok checked
  exact validateEditsFrom_mem checked

namespace Collection

def draft (c : Collection) : Draft := ⟨c.members, c.logicalBytes, c.encodedBytes⟩

theorem draft_ok (c : Collection) : c.draft.Ok c.descriptor := c.valid

/-- A complete candidate, or an error and the original image. -/
def applyEdits (c : Collection) (descriptor : Descriptor) (edits : List Edit) (key : Bytes) :
    Except MemoryError Collection :=
  if same : descriptor = c.descriptor then
    if maxEdits < edits.length then .error .argument
    else
      match checked : validateEdits descriptor edits with
      | .error error => .error error
      | .ok () =>
        match applied : edits.foldlM Draft.apply c.draft with
        | .error error => .error error
        | .ok draft =>
          match checkQuota c.descriptor draft.members draft.logicalBytes key with
          | .error error => .error error
          | .ok () =>
            .ok ⟨c.descriptor, draft.members, draft.logicalBytes, draft.encodedBytes,
              Draft.foldlM_ok c.draft_ok (same ▸ validateEdits_mem checked) applied⟩
  else .error .identity

/-- **What an accepted list of edits gives**: the schema is unchanged, the edits were valid and at
most 64, and the candidate passes the quotas of its key. -/
theorem applyEdits_ok {c candidate : Collection} {key : Bytes}
    (ok : c.applyEdits descriptor edits key = .ok candidate) :
    descriptor = c.descriptor ∧ edits.length ≤ maxEdits ∧ validateEdits descriptor edits = .ok () ∧
      candidate.descriptor = c.descriptor ∧ candidate.validateKey key = .ok () ∧
      edits.foldlM Draft.apply c.draft = .ok candidate.draft := by
  unfold applyEdits at ok
  split_ifs at ok with same long
  split at ok
  · cases ok
  · rename_i checked
    split at ok
    · cases ok
    · rename_i draft applied
      split at ok
      · cases ok
      · rename_i quota
        cases ok
        exact ⟨same, not_lt.mp long, checked, rfl, quota, applied⟩

/-! ### Search -/

structure SearchStats where
  visits : Nat
  components : Nat
  deriving DecidableEq, Repr

/-- The candidates kept so far, best first; the last one is the worst. -/
def pushTop {δ : Type} [LinearOrder δ] (k : Nat) (top : List δ) (candidate : δ) : List δ :=
  if top.length < k then top.orderedInsert (· ≤ ·) candidate
  else if top.getLast?.any (fun worst => candidate < worst) then
    top.dropLast.orderedInsert (· ≤ ·) candidate
  else top

/-- The coordinates of two vectors side by side. -/
def coordinates (query stored : Bytes) : List (F64 × F64) :=
  ((Bytes.chunksExact 4 query).zip (Bytes.chunksExact 4 stored)).map fun pair =>
    (F64.ofF32 (Bytes.littleEndian pair.1), F64.ofF32 (Bytes.littleEndian pair.2))

/-- Squared distance of two binary32 vectors, accumulated in binary64. -/
def distance (query stored : Bytes) : F64 :=
  (coordinates query stored).foldl
    (fun sum pair =>
      let delta := F64.sub pair.1 pair.2
      F64.add sum (F64.mul delta delta))
    (F64.ofBits 0)

/-- A member that the search loop does not skip. -/
def searchable (unixMs : Int) (visible : Member → Bool) (nameSpace : Bytes)
    (metadata : OrdMap Bytes Scalar) (m : Member) : Bool :=
  !(m.deadline.any (· ≤ unixMs)) && visible m && m.nameSpace = nameSpace &&
    metadata.entries.all fun entry => m.metadata.get? entry.1 = some entry.2

def validateSearchVector (c : Collection) (vector : Bytes) : Except MemoryError Unit := do
  rejectWhen (vector.length ≠ c.descriptor.dimension * 4) .dimension
  rejectWhen (nonFiniteVector vector) .nonFinite

/-- The checks of a query. -/
def checkSearch (c : Collection) (vector : Bytes) (k : Nat) (nameSpace : Bytes)
    (metadata : OrdMap Bytes Scalar) : Except MemoryError Unit := do
  rejectWhen (!(1 ≤ k && k ≤ maxSearchK)) .argument
  bounded nameSpace 0 256
  rejectWhen (32 < metadata.size) .argument
  metadata.entries.forM fun entry => do
    bounded entry.1 1 64
    entry.2.boundedBytes
  c.validateSearchVector vector
  rejectWhen (maxMembers < c.members.size
    || (Machine.checkedMul c.members.size c.descriptor.dimension).all (maxComponents < ·)) .quota

/-- The loop over the members, for any distances. -/
def searchLoop {δ : Type} [LinearOrder δ] (measure : Member → δ) (vector : Bytes) (k : Nat)
    (eligible : Member → Bool) (members : List Member) : List (δ ×ₗ Bytes) × SearchStats :=
  members.foldl
    (fun (top, stats) m =>
      if eligible m then
        (pushTop k top (toLex (measure m, m.id)),
          ⟨stats.visits + 1, stats.components + (coordinates vector m.vector).length⟩)
      else (top, ⟨stats.visits + 1, stats.components⟩))
    ([], ⟨0, 0⟩)

/-- The hits of a ranking. -/
def hitsOf {δ : Type} (ranking : List (δ ×ₗ Bytes)) : List (Bytes × δ) :=
  ranking.map fun hit => ((ofLex hit).2, (ofLex hit).1)

/-- A search, for any distances. -/
def searchBy {δ : Type} [LinearOrder δ] (c : Collection) (measure : Member → δ) (vector : Bytes)
    (k : Nat) (nameSpace : Bytes) (metadata : OrdMap Bytes Scalar) (unixMs : Int)
    (visible : Member → Bool) : Except MemoryError (List (Bytes × δ) × SearchStats) := do
  c.checkSearch vector k nameSpace metadata
  let (top, stats) := searchLoop measure vector k (searchable unixMs visible nameSpace metadata)
    c.members.values
  .ok (hitsOf top, stats)

/-- The search by the distances of the vectors. -/
def searchWithVisibilityStats (c : Collection) (vector : Bytes) :=
  c.searchBy (fun m => distance vector m.vector) vector

end Collection

/-! ### Operations -/

inductive Ttl where
  | persistent
  | keep
  | after (milliseconds : Int)
  deriving DecidableEq, Repr

/-- One native memory request on a collection key. -/
inductive Operation where
  | create (descriptor : Descriptor)
  | info
  | put (descriptor : Descriptor) (member : Member) (ttl : Ttl) (condition : SetCondition)
  | get (id : Bytes)
  | delete (id : Bytes)
  | pttl (id : Bytes)
  | expire (id : Bytes) (milliseconds : Int)
  | persist (id : Bytes)
  | search (descriptor : Descriptor) (vector : Bytes) (k : Nat) (nameSpace : Bytes)
      (metadata : OrdMap Bytes Scalar)
  deriving DecidableEq

def Operation.writesDataset : Operation → Bool
  | info | get _ | pttl _ | search .. => false
  | create _ | put .. | delete _ | expire .. | persist _ => true

end Sider
