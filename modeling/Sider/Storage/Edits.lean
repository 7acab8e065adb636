/-
**Accepted edits of a memory collection.**

* `Collection.ext_members` — a collection is its descriptor and its members; the cached sizes follow.
* `applyEdits_exact` — what a list of edits gives after any others: the members it names, exact sizes
  within the limits, and the collection that `fromMembers` builds from its members.
* `exists_without` — removing members that are there, in id order and at most 64 of them, is always
  accepted and gives the collection without them.
* `Without.memberEdits` — the edits computed from the images before and after such a removal are that
  removal.
-/

import Sider.Storage.MemoryLifecycle

namespace Sider

variable {id key : Bytes} {ids : List Bytes} {descriptor : Descriptor} {member : Member}
  {draft : Draft} {edits : List Edit} {edit : Edit}

namespace Collection

variable {c d : Collection}

/-- **A collection is its descriptor and its members.** -/
theorem ext_members (descriptor : c.descriptor = d.descriptor) (members : c.members = d.members) :
    c = d := by
  have logical : c.logicalBytes = d.logicalBytes := by
    rw [c.valid.logical_exact, d.valid.logical_exact, descriptor, members]
  have encoded : c.encodedBytes = d.encodedBytes := by
    rw [c.valid.encoded_exact, d.valid.encoded_exact, descriptor, members]
  cases c
  cases d
  simp_all

theorem member_id_eq (found : c.members.get? id = some member) : member.id = id :=
  (c.valid.member_ok id member found).1

/-! ### Quotas -/

/-- The quotas of a key in closed form. -/
theorem checkQuota_eq_ok {members : OrdMap Bytes Member} {logicalBytes : Nat} :
    checkQuota descriptor members logicalBytes key = .ok () ↔
      bounded key 1 256 = .ok () ∧ members.size ≤ maxMembers ∧
        members.size * descriptor.dimension ≤ maxComponents ∧
        logicalBytes + (128 + key.length) ≤ maxCollectionBytes := by
  have big : maxCollectionBytes < Machine.word := by decide
  have product := @Machine.checkedMul_within members.size descriptor.dimension maxComponents (by decide)
  have sum : (Machine.charge logicalBytes [128, key.length]).all (maxCollectionBytes < ·) = false ↔
      logicalBytes + (128 + key.length) ≤ maxCollectionBytes := by
    by_cases small : logicalBytes < Machine.word
    · rw [Machine.charge_eq small, List.sum_cons, List.sum_singleton]
      split_ifs with fits
      · simp
      · simp only [Option.all_none, Bool.true_eq_false, false_iff]
        omega
    · have overflow : Machine.checkedAdd logicalBytes 128 = none := by
        unfold Machine.checkedAdd
        rw [if_neg (by omega)]
      have none : Machine.charge logicalBytes [128, key.length] = none := by
        show (Machine.checkedAdd logicalBytes 128).bind _ = none
        rw [overflow]
        rfl
      simp only [none, Option.all_none, Bool.true_eq_false, false_iff]
      omega
  unfold checkQuota
  constructor
  · intro ok
    obtain ⟨_, bound, ok⟩ := bind_eq_ok ok
    rw [rejectWhen_eq_ok, Bool.or_eq_false_iff, Bool.or_eq_false_iff, product, sum] at ok
    exact ⟨bound, by simpa using ok.1.1, ok.1.2, ok.2⟩
  · rintro ⟨bound, size, components, bytes⟩
    rw [bound]
    refine rejectWhen_eq_ok.mpr ?_
    rw [Bool.or_eq_false_iff, Bool.or_eq_false_iff, product, sum]
    exact ⟨⟨by simpa using size, components⟩, bytes⟩

theorem checkQuota_mono {members fewer : OrdMap Bytes Member} {logicalBytes smaller : Nat}
    (ok : checkQuota descriptor members logicalBytes key = .ok ())
    (size : fewer.size ≤ members.size) (bytes : smaller ≤ logicalBytes) :
    checkQuota descriptor fewer smaller key = .ok () := by
  obtain ⟨bound, few, components, fits⟩ := checkQuota_eq_ok.mp ok
  have product := Nat.mul_le_mul_right descriptor.dimension size
  exact checkQuota_eq_ok.mpr ⟨bound, by omega, by omega, by omega⟩

/-! ### Edits of the members -/

/-- What an edit does to the members. -/
def edited (members : OrdMap Bytes Member) : Edit → OrdMap Bytes Member
  | .upsert member => members.insert member.id member
  | .remove id => members.erase id

theorem Draft.put_members {next : Draft} (puts : draft.put (.upsert member) = .ok next) :
    next.members = draft.members.insert member.id member := by
  simp only [Draft.put] at puts
  split at puts
  · cases puts
    rfl
  · cases puts

theorem Draft.apply_edited {next : Draft} (applied : draft.apply edit = .ok next) :
    next.members = edited draft.members edit := by
  obtain ⟨taken, took, puts⟩ := bind_eq_ok applied
  have erased : taken.members = draft.members.erase edit.id := by
    unfold Draft.take at took
    split at took
    · cases took
      rfl
    · rename_i absent
      split at took
      · cases took
      · cases took
        exact (OrdMap.erase_of_get?_none absent).symm
  cases edit with
  | remove other =>
    cases puts
    exact erased
  | upsert new =>
    rw [Draft.put_members puts, erased]
    exact OrdMap.erase_insert _ _ _

theorem Draft.foldlM_edited {next : Draft} (applied : edits.foldlM Draft.apply draft = .ok next) :
    next.members = edits.foldl edited draft.members := by
  induction edits generalizing draft with
  | nil =>
    cases applied
    rfl
  | cons edit rest ih =>
    obtain ⟨middle, first, applied⟩ := bind_eq_ok applied
    rw [ih applied, Draft.apply_edited first]
    rfl

/-- What one edit leaves: the members it does not name, and the one it brings. -/
theorem Draft.apply_members {next : Draft} (applied : draft.apply edit = .ok next)
    (found : next.members.get? id = some member) :
    draft.members.get? id = some member ∨ edit = .upsert member := by
  rw [Draft.apply_edited applied] at found
  cases edit with
  | remove other =>
    rw [edited, OrdMap.get?_erase] at found
    split_ifs at found
    exact .inl found
  | upsert new =>
    rw [edited, OrdMap.get?_insert] at found
    split_ifs at found
    · exact .inr (congrArg Edit.upsert (Option.some.inj found))
    · exact .inl found

/-! ### Removals -/

theorem size_erase_le {α : Type} (m : OrdMap Bytes α) (id : Bytes) : (m.erase id).size ≤ m.size :=
  List.length_filter_le _ _

/-- Removing members that are there. -/
theorem foldlM_remove (nodup : ids.Nodup) (draft : Draft) (present : ∀ id ∈ ids, id ∈ draft.members) :
    ∃ next, (ids.map Edit.remove).foldlM Draft.apply draft = .ok next ∧
      next.members = ids.foldl OrdMap.erase draft.members ∧
      next.members.size ≤ draft.members.size ∧ next.logicalBytes ≤ draft.logicalBytes := by
  induction ids generalizing draft with
  | nil => exact ⟨draft, rfl, rfl, le_refl _, le_refl _⟩
  | cons id others ih =>
    obtain ⟨fresh, tail⟩ := List.nodup_cons.mp nodup
    obtain ⟨member, found⟩ := OrdMap.mem_iff.mp (present id List.mem_cons_self)
    have head : Draft.apply draft (.remove id) =
        .ok ⟨draft.members.erase id, draft.logicalBytes - member.logicalBytes,
          draft.encodedBytes - member.encodedBytes⟩ := by
      unfold Draft.apply Draft.take
      simp only [Edit.id, found]
      rfl
    obtain ⟨next, rest, members, size, bytes⟩ := ih tail
      ⟨draft.members.erase id, draft.logicalBytes - member.logicalBytes,
        draft.encodedBytes - member.encodedBytes⟩ fun other inside => by
      have different : other ≠ id := fun same => fresh (same ▸ inside)
      exact OrdMap.mem_erase.mpr ⟨different, present other (List.mem_cons_of_mem _ inside)⟩
    refine ⟨next, ?_, members, size.trans (size_erase_le _ _), ?_⟩
    · rw [List.map_cons, List.foldlM_cons, head]
      exact rest
    · exact bytes.trans (Nat.sub_le _ _)

theorem validateEditsFrom_remove (descriptor : Descriptor) (sorted : ids.Pairwise (· < ·))
    (bound : ∀ id ∈ ids, bounded id 1 256 = .ok ()) {previous : Option Bytes}
    (after : ∀ id ∈ ids, previous.any (fun last => id ≤ last) = false) :
    validateEditsFrom descriptor previous (ids.map Edit.remove) = .ok () := by
  induction ids generalizing previous with
  | nil => rfl
  | cons id others ih =>
    obtain ⟨first, tail⟩ := List.pairwise_cons.mp sorted
    have later : ∀ other ∈ others, (some id).any (fun last => other ≤ last) = false :=
      fun other inside => by simpa using first other inside
    have rest := ih tail (fun other inside => bound other (List.mem_cons_of_mem _ inside)) later
    show (do
      bounded id 1 256
      rejectWhen (previous.any fun last => id ≤ last) .editOrder
      Edit.validate descriptor (.remove id)
      validateEditsFrom descriptor (some id) (others.map Edit.remove)) = _
    rw [bound id List.mem_cons_self, after id List.mem_cons_self, rest]
    rfl

/-- Edits that validate, apply and keep the quotas are accepted. -/
theorem applyEdits_eq_ok (few : edits.length ≤ maxEdits)
    (checked : validateEdits c.descriptor edits = .ok ())
    (applied : edits.foldlM Draft.apply c.draft = .ok draft)
    (quota : checkQuota c.descriptor draft.members draft.logicalBytes key = .ok ()) :
    ∃ candidate, c.applyEdits c.descriptor edits key = .ok candidate ∧ candidate.draft = draft := by
  unfold applyEdits
  rw [dif_pos rfl, if_neg (not_lt.mpr few)]
  split
  · rename_i error failed
    rw [checked] at failed
    cases failed
  · split
    · rename_i error failed
      rw [applied] at failed
      cases failed
    · rename_i found ok
      rw [applied] at ok
      cases ok
      rw [quota]
      exact ⟨_, rfl, rfl⟩

theorem bounded_id (present : id ∈ c.members) : bounded id 1 256 = .ok () := by
  obtain ⟨member, found⟩ := OrdMap.mem_iff.mp present
  obtain ⟨same, valid⟩ := c.valid.member_ok id member found
  obtain ⟨_, _, valid⟩ := bind_eq_ok valid
  obtain ⟨_, bound, _⟩ := bind_eq_ok valid
  exact same ▸ bound

/-- The candidate is the collection without some present members, removed in id order. -/
structure Without (c : Collection) (ids : List Bytes) (key : Bytes) (candidate : Collection) :
    Prop where
  sorted : ids.Pairwise (· < ·)
  few : ids.length ≤ maxEdits
  present : ∀ id ∈ ids, id ∈ c.members
  accepted : c.applyEdits c.descriptor (ids.map Edit.remove) key = .ok candidate
  descriptor : candidate.descriptor = c.descriptor
  members : candidate.members = ids.foldl OrdMap.erase c.members
  smaller : candidate.logicalBytes ≤ c.logicalBytes

/-- **Removing present members in id order is accepted.** -/
theorem exists_without (sorted : ids.Pairwise (· < ·)) (few : ids.length ≤ maxEdits)
    (present : ∀ id ∈ ids, id ∈ c.members) (quota : c.validateKey key = .ok ()) :
    ∃ candidate, c.Without ids key candidate := by
  have nodup : ids.Nodup := sorted.imp fun less => ne_of_lt less
  obtain ⟨draft, applied, members, size, bytes⟩ := foldlM_remove nodup c.draft present
  have checked : validateEdits c.descriptor (ids.map Edit.remove) = .ok () := by
    unfold validateEdits
    rw [c.valid.descriptor_ok]
    exact validateEditsFrom_remove c.descriptor sorted (fun id inside => bounded_id (present id inside))
      fun _ _ => rfl
  obtain ⟨candidate, ok, same⟩ := applyEdits_eq_ok (by rw [List.length_map]; exact few) checked applied
    (checkQuota_mono quota size bytes)
  subst same
  exact ⟨candidate, sorted, few, present, ok, (applyEdits_ok ok).2.2.2.1, members, bytes⟩

/-- No edits at all give the collection back. -/
theorem applyEdits_nil (quota : c.validateKey key = .ok ()) :
    c.applyEdits c.descriptor [] key = .ok c := by
  have none : ([] : List Bytes).Pairwise (· < ·) := List.Pairwise.nil
  obtain ⟨candidate, without⟩ :=
    exists_without none (Nat.zero_le _) nofun quota
  have accepted := without.accepted
  rw [ext_members without.descriptor without.members] at accepted
  exact accepted

/-! ### Collections from their members -/

/-- Add the next member of an image that is read in id order. -/
def Draft.push (descriptor : Descriptor) (state : Option Bytes × Draft) (member : Member) :
    Except MemoryError (Option Bytes × Draft) := do
  member.validate descriptor
  rejectWhen (state.1.any (member.id ≤ ·)) .editOrder
  let draft ← state.2.put (.upsert member)
  .ok (some member.id, draft)

/-- The draft of an image being read, none of whose ids is above the last one. -/
structure Draft.Reading (descriptor : Descriptor) (state : Option Bytes × Draft) : Prop where
  ok : state.2.Ok descriptor
  below : OrdMap.Below state.1 state.2.members

section Reading

variable {state next : Option Bytes × Draft} {members : List Member}

/-- A further member is above the others. -/
theorem Draft.push_eq_ok (reading : Draft.Reading descriptor state)
    (pushed : Draft.push descriptor state member = .ok next) :
    Draft.Reading descriptor next ∧ next.2.members = state.2.members.insert member.id member ∧
      ∀ id ∈ state.2.members, id < member.id := by
  obtain ⟨_, checked, pushed⟩ := bind_eq_ok pushed
  obtain ⟨_, ordered, pushed⟩ := bind_eq_ok pushed
  obtain ⟨draft, puts, pushed⟩ := bind_eq_ok pushed
  cases pushed
  have passes := rejectWhen_eq_ok.mp ordered
  have above := reading.below.above passes
  have absent : state.2.members.get? (Edit.upsert member).id = none :=
    OrdMap.get?_eq_none_iff.mpr fun inside => lt_irrefl _ (above _ inside)
  have members := Draft.put_members puts
  refine ⟨⟨Draft.put_ok reading.ok absent checked puts, ?_⟩, members, above⟩
  exact members ▸ reading.below.insert passes member

/-- Reading members in increasing id order keeps them in that order. -/
theorem Draft.foldlM_push_reading (reading : Draft.Reading descriptor state)
    (pushed : members.foldlM (Draft.push descriptor) state = .ok next) :
    Draft.Reading descriptor next ∧ next.2.members.values = state.2.members.values ++ members := by
  induction members generalizing state with
  | nil =>
    cases pushed
    exact ⟨reading, (List.append_nil _).symm⟩
  | cons member members ih =>
    obtain ⟨middle, first, pushed⟩ := bind_eq_ok pushed
    obtain ⟨reads, inserted, above⟩ := Draft.push_eq_ok reading first
    obtain ⟨kept, values⟩ := ih reads pushed
    refine ⟨kept, ?_⟩
    rw [values, inserted, OrdMap.values, OrdMap.entries_insert_of_above above, List.map_append,
      List.append_assoc]
    rfl

/-- The draft that reading starts from. -/
def Draft.start (descriptor : Descriptor) : Option Bytes × Draft :=
  (none, ⟨∅, descriptor.logicalBytes, descriptor.encodedBytes + 4⟩)

theorem Draft.start_reading (checked : descriptor.validate = .ok ()) :
    Draft.Reading descriptor (Draft.start descriptor) :=
  ⟨valid_new checked, fun _ inside => absurd inside (OrdMap.not_mem_empty _)⟩

/-- The image with the given members, in strictly increasing id order. -/
def fromMembers (descriptor : Descriptor) (members : List Member) (key : Bytes) :
    Except MemoryError Collection :=
  match checked : descriptor.validate with
  | .error error => .error error
  | .ok () =>
    match built : members.foldlM (Draft.push descriptor) (Draft.start descriptor) with
    | .error error => .error error
    | .ok state =>
      match checkQuota descriptor state.2.members state.2.logicalBytes key with
      | .error error => .error error
      | .ok () =>
        .ok ⟨descriptor, state.2.members, state.2.logicalBytes, state.2.encodedBytes,
          (Draft.foldlM_push_reading (Draft.start_reading checked) built).1.ok⟩

/-- What an image read from its members is. -/
theorem fromMembers_eq_ok (built : fromMembers descriptor members key = .ok c) :
    c.descriptor = descriptor ∧ c.members.values = members ∧ c.validateKey key = .ok () := by
  unfold fromMembers at built
  split at built
  · cases built
  rename_i checked
  split at built
  · cases built
  rename_i state pushed
  split at built
  · cases built
  rename_i quota
  cases built
  exact ⟨rfl, (Draft.foldlM_push_reading (Draft.start_reading checked) pushed).2, quota⟩

/-- Valid members in increasing id order are read, within the bounds of machine words. -/
theorem Draft.foldlM_push (valid : ∀ member ∈ members, member.validate descriptor = .ok ())
    (increasing : (members.map Member.id).Pairwise (· < ·))
    (above : ∀ member ∈ members, state.1.any (member.id ≤ ·) = false)
    (logical : state.2.logicalBytes + (members.map Member.logicalBytes).sum < Machine.word)
    (encoded : state.2.encodedBytes + (members.map Member.encodedBytes).sum < Machine.word) :
    ∃ final, members.foldlM (Draft.push descriptor) state = .ok final := by
  induction members generalizing state with
  | nil => exact ⟨state, rfl⟩
  | cons member members ih =>
    obtain ⟨first, rest⟩ := List.forall_mem_cons.mp valid
    rw [List.map_cons, List.pairwise_cons] at increasing
    rw [List.map_cons, List.sum_cons, ← Nat.add_assoc] at logical encoded
    have pushed : Draft.push descriptor state member = .ok (some member.id,
        ⟨state.2.members.insert member.id member, state.2.logicalBytes + member.logicalBytes,
          state.2.encodedBytes + member.encodedBytes⟩) := by
      have charged : Machine.checkedAdd state.2.logicalBytes member.logicalBytes = some _ :=
        Machine.checkedAdd_eq_some.mpr ⟨by omega, rfl⟩
      have charged' : Machine.checkedAdd state.2.encodedBytes member.encodedBytes = some _ :=
        Machine.checkedAdd_eq_some.mpr ⟨by omega, rfl⟩
      simp [Draft.push, first, rejectWhen, above member List.mem_cons_self, Draft.put, charged,
        charged', bind, Except.bind]
    have later : ∀ later ∈ members, (some member.id).any (later.id ≤ ·) = false := by
      intro later inside
      simpa using increasing.1 later.id (List.mem_map_of_mem inside)
    rw [List.foldlM_cons, pushed]
    exact ih rest increasing.2 later logical encoded

end Reading

/-- The members determine the entries. -/
theorem Draft.Ok.entries_eq (ok : draft.Ok descriptor) :
    draft.members.values.map (fun member => (member.id, member)) = draft.members.entries := by
  rw [OrdMap.values, List.map_map]
  refine (List.map_congr_left fun entry inside => ?_).trans (List.map_id _)
  show (entry.2.id, entry.2) = entry
  rw [(ok.member_ok _ _ (OrdMap.get?_eq_some_iff.mpr inside)).1]

theorem encodedBytes_le (m : Member) : m.encodedBytes ≤ m.logicalBytes := by
  have metadata : m.metadata.total (fun field value => 4 + field.length + value.encodedBytes) ≤
      m.metadata.total fun field value => 64 + field.length + value.logicalBytes :=
    List.sum_le_sum fun entry _ => by
      cases entry.2 <;> simp only [Scalar.encodedBytes, Scalar.logicalBytes] <;> omega
  have provenance : m.provenance.total (fun field value => 8 + field.length + value.length) ≤
      m.provenance.total fun field value => 64 + field.length + value.length :=
    List.sum_le_sum fun entry _ => by dsimp only; omega
  unfold Member.encodedBytes Member.logicalBytes
  omega

/-- **A collection is read back from its members.** -/
theorem fromMembers_values (quota : c.validateKey key = .ok ()) :
    fromMembers c.descriptor c.members.values key = .ok c := by
  have ids : c.members.values.map (fun member => (member.id, member)) = c.members.entries :=
    c.draft_ok.entries_eq
  have keys : c.members.values.map Member.id = c.members.keys := by
    rw [OrdMap.keys, ← ids, List.map_map]
    rfl
  have totals (f : Member → Nat) :
      (c.members.values.map f).sum = c.members.total fun _ member => f member := by
    rw [OrdMap.values, List.map_map]
    rfl
  have logical := c.valid.logical_exact
  have bytes := (checkQuota_eq_ok.mp quota).2.2.2
  have word : maxCollectionBytes < Machine.word := by decide
  have fewer : (c.members.values.map Member.encodedBytes).sum ≤
      (c.members.values.map Member.logicalBytes).sum := List.sum_le_sum fun m _ => encodedBytes_le m
  have fits : c.descriptor.logicalBytes + (c.members.values.map Member.logicalBytes).sum <
      Machine.word := by rw [totals]; omega
  have valid : ∀ member ∈ c.members.values, member.validate c.descriptor = .ok () := by
    intro member inside
    obtain ⟨⟨id, _⟩, entry, rfl⟩ := List.mem_map.mp inside
    exact (c.valid.member_ok id _ (OrdMap.get?_eq_some_iff.mpr entry)).2
  obtain ⟨final, built⟩ := @Draft.foldlM_push c.descriptor (Draft.start c.descriptor)
    c.members.values valid (keys ▸ c.members.sorted) (fun _ _ => rfl) fits (by
      show c.descriptor.encodedBytes + 4 + _ < _
      unfold Descriptor.encodedBytes
      unfold Descriptor.logicalBytes at fits
      omega)
  obtain ⟨reading, values⟩ :=
    Draft.foldlM_push_reading (Draft.start_reading c.valid.descriptor_ok) built
  have rebuilt : final.2.members = c.members := by
    have entries := reading.ok.entries_eq
    rw [values] at entries
    exact OrdMap.ext_get? fun id => congrArg (OrdMap.find · id) (entries.symm.trans ids)
  have total : final.2.logicalBytes = c.logicalBytes := by
    rw [reading.ok.logical_exact, rebuilt, logical]
  unfold fromMembers
  split
  · rename_i error refused
    rw [c.valid.descriptor_ok] at refused
    cases refused
  split
  · rename_i error refused
    rw [built] at refused
    cases refused
  · rename_i state found
    cases found.symm.trans built
    split
    · rename_i error refused
      rw [rebuilt, total] at refused
      cases refused.symm.trans quota
    · exact congrArg Except.ok (ext_members rfl rebuilt)

/-! ### Sequences of edits -/

/-- The collection after lists of edits; one that is refused leaves it as it is. -/
def editRun (c : Collection) (lists : List (Descriptor × List Edit × Bytes)) : Collection :=
  lists.foldl (fun c list => (c.applyEdits list.1 list.2.1 list.2.2).toOption.getD c) c

/-- **Edits keep exact sizes and bounds.** After any lists of edits, a further list fails and leaves the
collection unchanged, or gives the edited members with exact sizes within the limits, which
`fromMembers` builds as well. No size that is taken off exceeds what it is taken off from. -/
theorem applyEdits_exact (start : Collection) (lists : List (Descriptor × List Edit × Bytes))
    (descriptor : Descriptor) (edits : List Edit) (key : Bytes) :
    let c := start.editRun lists
    let after := start.editRun (lists ++ [(descriptor, edits, key)])
    (((∃ error, c.applyEdits descriptor edits key = .error error) ∧ after = c) ∨
      (c.applyEdits descriptor edits key = .ok after ∧ after.descriptor = c.descriptor ∧
        after.members = edits.foldl edited c.members ∧
        after.logicalBytes = after.descriptor.logicalBytes +
          after.members.total (fun _ member => member.logicalBytes) ∧
        after.encodedBytes = after.descriptor.encodedBytes + 4 +
          after.members.total (fun _ member => member.encodedBytes) ∧
        after.members.size ≤ maxMembers ∧
        after.members.size * after.descriptor.dimension ≤ maxComponents ∧
        after.logicalBytes + (128 + key.length) ≤ maxCollectionBytes ∧
        fromMembers after.descriptor after.members.values key = .ok after)) ∧
    (validateEdits c.descriptor edits = .ok () → ∀ done edit rest draft previous,
      edits = done ++ edit :: rest → done.foldlM Draft.apply c.draft = .ok draft →
      draft.members.get? edit.id = some previous →
      previous.logicalBytes ≤ draft.logicalBytes ∧ previous.encodedBytes ≤ draft.encodedBytes) := by
  intro c after
  have step : after = (c.applyEdits descriptor edits key).toOption.getD c := by
    show (lists ++ [_]).foldl _ start = _
    rw [List.foldl_append]
    rfl
  constructor
  · cases result : c.applyEdits descriptor edits key with
    | error error =>
      rw [result] at step
      exact .inl ⟨⟨error, rfl⟩, step⟩
    | ok candidate =>
      rw [result] at step
      obtain rfl : after = candidate := step
      obtain ⟨_, _, _, same, quota, applied⟩ := applyEdits_ok result
      obtain ⟨_, few, components, bytes⟩ := checkQuota_eq_ok.mp quota
      exact .inr ⟨rfl, same, Draft.foldlM_edited applied, after.valid.logical_exact,
        after.valid.encoded_exact, few, components, bytes, fromMembers_values quota⟩
  · intro checked done edit rest draft previous split reached found
    have each := validateEdits_mem checked
    have ok := Draft.foldlM_ok c.draft_ok
      (fun early inside => each early (split ▸ List.mem_append_left _ inside)) reached
    have logical := OrdMap.le_total (fun _ member => Member.logicalBytes member) found
    have encoded := OrdMap.le_total (fun _ member => Member.encodedBytes member) found
    rw [ok.logical_exact, ok.encoded_exact]
    exact ⟨by omega, by omega⟩

end Collection

/-! ### The edits between two images -/

/-- **The edits between the images before and after a removal are that removal.** -/
theorem Collection.Without.memberEdits {before after : Collection}
    (without : before.Without ids key after) :
    Store.memberEdits before after = ids.map Edit.remove := by
  have sorted := without.sorted
  have members := without.members
  have kept : ∀ id, id ∈ after.members ↔ id ∉ ids ∧ id ∈ before.members := fun id => by
    rw [members, OrdMap.mem_foldl_erase]
  have upserts : (after.members.entries.filterMap fun entry : Bytes × Member =>
      if before.members.get? entry.1 = some entry.2 then none
      else some (entry.1, Edit.upsert entry.2)) = [] := by
    refine List.filterMap_eq_nil_iff.mpr fun entry inside => ?_
    have found : after.members.get? entry.1 = some entry.2 := OrdMap.get?_eq_some_iff.mpr inside
    rw [if_pos]
    have apart := ((kept entry.1).mp (OrdMap.mem_iff.mpr ⟨entry.2, found⟩)).1
    rw [members, OrdMap.get?_foldl_erase, if_neg apart] at found
    exact found
  have removed : before.members.keys.filter (fun id => id ∉ after.members) = ids := by
    refine List.Perm.eq_of_pairwise (fun _ _ _ _ left right => le_antisymm (le_of_lt left) (le_of_lt right))
      (before.members.sorted.filter _) sorted ?_
    refine (List.perm_ext_iff_of_nodup (before.members.nodup_keys.filter _)
      (sorted.imp fun less => ne_of_lt less)).mpr fun id => ?_
    rw [List.mem_filter, OrdMap.mem_keys, decide_eq_true_eq, kept]
    constructor
    · rintro ⟨inside, gone⟩
      by_contra other
      exact gone ⟨other, inside⟩
    · exact fun own => ⟨without.present id own, fun still => still.1 own⟩
  have removes : (before.members.keys.filterMap fun id =>
      if id ∈ after.members then none else some (id, Edit.remove id)) =
      ids.map fun id => (id, Edit.remove id) := by
    rw [← removed, ← List.filterMap_eq_map, List.filterMap_filter]
    refine List.filterMap_congr fun id _ => ?_
    by_cases gone : id ∈ after.members <;> simp [gone]
  show (OrdMap.ofList (_ ++ _)).values = _
  rw [removes, upserts, List.append_nil, OrdMap.ofList_sorted (by
    rw [List.map_map]
    exact (List.map_id ids).symm ▸ sorted)]
  show (ids.map fun id => (id, Edit.remove id)).map Prod.snd = _
  rw [List.map_map]
  rfl

end Sider
