/-
**The bounded search returns the first `k` of the sorted members.**

`pushTop` keeps the best `k` candidates seen so far. Over any linear order it is an ordered insertion cut
off after `k` (`pushTop_eq`), and cutting off early loses nothing (`take_orderedInsert`), so that a loop
of it is a sort cut off after `k` (`searchLoop_eq`), in whatever order the members come. The checks before
the loop accept exactly the queries within the limits (`checkSearch_eq_ok`).
-/

import Mathlib.Data.List.Induction
import Sider.Storage.Memory

namespace Sider.Collection

open Float64

section TopK

variable {δ : Type} [LinearOrder δ] {k : Nat} {top list : List δ}

/-- Two increasing lists with the same elements are equal. -/
theorem eq_of_sorted {other : List δ} (sorted : list.Pairwise (· ≤ ·)) (sorted' : other.Pairwise (· ≤ ·))
    (same : list.Perm other) : list = other :=
  same.eq_of_pairwise (fun _ _ _ _ => le_antisymm) sorted sorted'

/-- What is beyond the first `k` stays there. -/
theorem take_orderedInsert (k : Nat) (list : List δ) (candidate : δ) :
    (list.orderedInsert (· ≤ ·) candidate).take k =
      ((list.take k).orderedInsert (· ≤ ·) candidate).take k := by
  induction list generalizing k with
  | nil => simp
  | cons head list ih =>
    cases k with
    | zero => rfl
    | succ k =>
      rw [List.take_succ_cons, List.orderedInsert_cons, List.orderedInsert_cons]
      split_ifs
      · cases k <;> simp [List.take_take]
      · rw [List.take_succ_cons, List.take_succ_cons, ih]

theorem pushTop_eq (sorted : top.Pairwise (· ≤ ·)) (few : top.length ≤ k) (candidate : δ) :
    pushTop k top candidate = (top.orderedInsert (· ≤ ·) candidate).take k := by
  have size := List.orderedInsert_length (· ≤ ·) top candidate
  have inserted := sorted.orderedInsert candidate
  have all := List.perm_orderedInsert (· ≤ ·) candidate top
  unfold pushTop
  split_ifs with room better
  · rw [List.take_of_length_le (by omega)]
  · -- The worst one makes room.
    obtain ⟨worst, last, less⟩ := (Option.any_eq_true ..).mp better
    obtain ⟨init, rfl⟩ := List.getLast?_eq_some_iff.mp last
    rw [List.dropLast_concat]
    obtain ⟨front, _, below⟩ := List.pairwise_append.mp sorted
    have split : (init ++ [worst]).orderedInsert (· ≤ ·) candidate =
        init.orderedInsert (· ≤ ·) candidate ++ [worst] := by
      refine eq_of_sorted inserted (List.pairwise_append.mpr ⟨front.orderedInsert candidate,
        List.pairwise_singleton _ _, fun item inside _ own => ?_⟩) (all.trans
        ((List.perm_orderedInsert (· ≤ ·) candidate init).append_right [worst]).symm)
      rw [List.mem_singleton.mp own]
      rcases List.mem_cons.mp ((List.perm_orderedInsert _ _ _).mem_iff.mp inside) with rfl | old
      · exact (of_decide_eq_true less).le
      · exact below item old worst (List.mem_singleton_self _)
    rw [split, List.take_left' (by rw [List.orderedInsert_length, List.length_append] at *; simp at *; omega)]
  · -- The candidate comes after all of them.
    have after : ∀ item ∈ top, item ≤ candidate := by
      intro item inside
      obtain ⟨worst, last⟩ := Option.isSome_iff_exists.mp
        (List.getLast?_isSome.mpr (List.ne_nil_of_mem inside))
      obtain ⟨init, rfl⟩ := List.getLast?_eq_some_iff.mp last
      have least : worst ≤ candidate := by simpa [last] using better
      rcases List.mem_append.mp inside with early | own
      · exact ((List.pairwise_append.mp sorted).2.2 item early worst (List.mem_singleton_self _)).trans least
      · exact List.mem_singleton.mp own ▸ least
    have split : top.orderedInsert (· ≤ ·) candidate = top ++ [candidate] := by
      refine eq_of_sorted inserted (List.pairwise_append.mpr ⟨sorted, List.pairwise_singleton _ _,
        fun item inside _ own => List.mem_singleton.mp own ▸ after item inside⟩) (all.trans ?_)
      exact (List.perm_append_singleton candidate top).symm
    rw [split, List.take_left' (by omega)]

/-- **A loop of `pushTop` is a sort, cut off.** -/
theorem foldl_pushTop (k : Nat) (list : List δ) :
    list.foldl (pushTop k) [] = (list.insertionSort (· ≤ ·)).take k := by
  induction list using List.reverseRecOn with
  | nil => simp
  | append_singleton list candidate ih =>
    have sorted := List.pairwise_insertionSort (· ≤ ·) list
    have next : (list ++ [candidate]).insertionSort (· ≤ ·) =
        (list.insertionSort (· ≤ ·)).orderedInsert (· ≤ ·) candidate := by
      refine eq_of_sorted (List.pairwise_insertionSort _ _) (sorted.orderedInsert candidate) ?_
      refine (List.perm_insertionSort _ _).trans ((List.perm_append_singleton _ _).trans ?_)
      exact ((List.perm_orderedInsert _ _ _).trans ((List.perm_insertionSort _ _).cons _)).symm
    rw [List.foldl_append, ih, next, take_orderedInsert]
    exact pushTop_eq (sorted.sublist (List.take_sublist _ _)) (List.length_take_le _ _) candidate

end TopK

/-! ### Searches -/

section Search

variable {δ : Type} [LinearOrder δ] {c : Collection} {vector nameSpace : Bytes} {k : Nat}
  {metadata : OrdMap Bytes Scalar}

/-- The members by distance, then by id. -/
def byDistance (measure : Member → δ) (members : List Member) : List (δ ×ₗ Bytes) :=
  (members.map fun member => toLex (measure member, member.id)).insertionSort (· ≤ ·)

theorem byDistance_perm (measure : Member → δ) {members others : List Member}
    (same : members.Perm others) : byDistance measure members = byDistance measure others := by
  refine eq_of_sorted (List.pairwise_insertionSort _ _) (List.pairwise_insertionSort _ _) ?_
  exact (List.perm_insertionSort _ _).trans ((same.map _).trans (List.perm_insertionSort _ _).symm)

/-- **The loop ranks the eligible members and counts all.** The counters ride along: each component of
the result is a loop of its own. -/
theorem searchLoop_eq (measure : Member → δ) (vector : Bytes) (k : Nat) (eligible : Member → Bool)
    (members : List Member) :
    (searchLoop measure vector k eligible members).1 =
        (byDistance measure (members.filter eligible)).take k ∧
      (searchLoop measure vector k eligible members).2.visits = members.length := by
  constructor
  · have ranked : (searchLoop measure vector k eligible members).1 = members.foldl (fun top member =>
        if eligible member then pushTop k top (toLex (measure member, member.id)) else top) [] :=
      (List.foldl_hom Prod.fst fun state member => by split_ifs <;> rfl).symm
    rw [ranked, ← List.foldl_filter, byDistance, ← foldl_pushTop, List.foldl_map]
  · have counted : (searchLoop measure vector k eligible members).2.visits =
        members.foldl (fun count _ => count + 1) 0 :=
      (List.foldl_hom (fun state : _ × SearchStats => state.2.visits) fun state member => by
        split_ifs <;> rfl).symm
    simp [counted]

/-- A query within the limits of its arguments, of the vector and of the work. -/
structure SearchLimits (c : Collection) (vector : Bytes) (k : Nat) (nameSpace : Bytes)
    (metadata : OrdMap Bytes Scalar) : Prop where
  k : 1 ≤ k ∧ k ≤ maxSearchK
  nameSpace : nameSpace.length ≤ 256
  fields : metadata.size ≤ 32
  metadata : ∀ entry ∈ metadata.entries, (1 ≤ entry.1.length ∧ entry.1.length ≤ 64) ∧
    ∀ value, entry.2 = .bytes value → value.length ≤ 4096
  dimension : vector.length = c.descriptor.dimension * 4
  finite : nonFiniteVector vector = false
  members : c.members.size ≤ maxMembers
  components : c.members.size * c.descriptor.dimension ≤ maxComponents

theorem boundedBytes_eq_ok {scalar : Scalar} :
    scalar.boundedBytes = .ok () ↔ ∀ value, scalar = .bytes value → value.length ≤ 4096 := by
  cases scalar <;> simp [Scalar.boundedBytes, bounded_eq_ok]

/-- The checks accept exactly the queries within the limits. -/
theorem checkSearch_eq_ok : c.checkSearch vector k nameSpace metadata = .ok () ↔
    SearchLimits c vector k nameSpace metadata := by
  have work : maxComponents < Machine.word := by decide
  simp only [checkSearch, validateSearchVector, seq_eq_ok, rejectWhen_eq_ok, bounded_eq_ok,
    forM_eq_ok, boundedBytes_eq_ok, Bool.or_eq_false_iff, Machine.checkedMul_within work, Bool.not_eq_false',
    Bool.and_eq_true, decide_eq_true_eq, decide_eq_false_iff_not, not_lt, not_not, Nat.zero_le, true_and]
  constructor
  · rintro ⟨few, space, fields, each, ⟨size, finite⟩, members, components⟩
    exact ⟨few, space, fields, each, size, finite, members, components⟩
  · rintro ⟨few, space, fields, each, size, finite, members, components⟩
    exact ⟨few, space, fields, each, ⟨size, finite⟩, members, components⟩

/-- **A query within the limits is answered**, with the first of its eligible members. -/
theorem searchBy_eq_ok (limits : SearchLimits c vector k nameSpace metadata) (measure : Member → δ)
    (unixMs : Int) (visible : Member → Bool) :
    ∃ stats, c.searchBy measure vector k nameSpace metadata unixMs visible = .ok (hitsOf
        ((byDistance measure (c.members.values.filter
          (searchable unixMs visible nameSpace metadata))).take k), stats) ∧
      stats.visits = c.members.size := by
  obtain ⟨ranked, counted⟩ := searchLoop_eq measure vector k
    (searchable unixMs visible nameSpace metadata) c.members.values
  refine ⟨_, ?_, counted.trans (List.length_map _)⟩
  unfold searchBy
  rw [checkSearch_eq_ok.mpr limits, ← ranked]
  rfl

theorem searchBy_error (beyond : ¬ SearchLimits c vector k nameSpace metadata) (measure : Member → δ)
    (unixMs : Int) (visible : Member → Bool) :
    ∃ error, c.searchBy measure vector k nameSpace metadata unixMs visible = .error error := by
  unfold searchBy
  cases checked : c.checkSearch vector k nameSpace metadata with
  | error error => exact ⟨error, rfl⟩
  | ok => exact absurd (checkSearch_eq_ok.mp checked) beyond

/-- **Exact top-k search.** Whatever the distances, a query within the limits is answered with the first
`k` eligible members by distance and id and has visited every member, and any other is refused. The loop
gives the same in whatever order the members come. The search of the code is the one by its own
distances. -/
theorem search_exact (c : Collection) (measure : Member → δ) (vector : Bytes) (k : Nat)
    (nameSpace : Bytes) (metadata : OrdMap Bytes Scalar) (unixMs : Int) (visible : Member → Bool) :
    let eligible := searchable unixMs visible nameSpace metadata
    (SearchLimits c vector k nameSpace metadata →
      (∃ stats, c.searchBy measure vector k nameSpace metadata unixMs visible = .ok
          (hitsOf ((byDistance measure (c.members.values.filter eligible)).take k), stats) ∧
        stats.visits = c.members.size) ∧
      ∃ stats, c.searchWithVisibilityStats vector k nameSpace metadata unixMs visible = .ok
          (hitsOf ((byDistance (fun member => distance vector member.vector)
            (c.members.values.filter eligible)).take k), stats) ∧ stats.visits = c.members.size) ∧
    (¬ SearchLimits c vector k nameSpace metadata →
      (∃ error, c.searchBy measure vector k nameSpace metadata unixMs visible = .error error) ∧
      ∃ error, c.searchWithVisibilityStats vector k nameSpace metadata unixMs visible = .error error) ∧
    ∀ members : List Member, members.Perm c.members.values →
      (searchLoop measure vector k eligible members).1 =
        (byDistance measure (c.members.values.filter eligible)).take k := by
  intro eligible
  refine ⟨fun limits =>
      ⟨searchBy_eq_ok limits measure unixMs visible, searchBy_eq_ok limits _ unixMs visible⟩,
    fun beyond => ⟨searchBy_error beyond measure unixMs visible, searchBy_error beyond _ unixMs visible⟩,
    fun members same => ?_⟩
  rw [(searchLoop_eq ..).1, byDistance_perm measure (same.filter eligible)]

end Search

/-- Two members at distance 1 from the origin, one at distance 4, and one of another namespace. -/
def tied : Collection :=
  let schema : Descriptor := ⟨1, [112], [109], [114], [116]⟩
  (new schema >>= fun empty => empty.applyEdits schema [
    .upsert ⟨[97], [], [], [0, 0, 128, 191], none, ∅, ∅⟩, .upsert ⟨[98], [], [], [0, 0, 0, 64], none, ∅, ∅⟩,
    .upsert ⟨[99], [], [], [0, 0, 128, 63], none, ∅, ∅⟩,
    .upsert ⟨[100], [1], [], [0, 0, 0, 0], none, ∅, ∅⟩] [107]).toOption.get (by decide +kernel)

/-- The tie is broken by the ids, and the nearest member is not eligible. -/
theorem search_exact_tied : SearchLimits tied [0, 0, 0, 0] 2 [] ∅ ∧ ∃ stats,
    tied.searchWithVisibilityStats [0, 0, 0, 0] 2 [] ∅ 0 (fun _ => true) =
      .ok ([([97], F64.ofBits 0x3ff0000000000000), ([99], F64.ofBits 0x3ff0000000000000)], stats) ∧
    stats.visits = 4 := by
  have limits : SearchLimits tied [0, 0, 0, 0] 2 [] ∅ := checkSearch_eq_ok.mp (by decide +kernel)
  obtain ⟨_, stats, answered, visits⟩ := (search_exact tied (fun member => member.id.length) [0, 0, 0, 0]
    2 [] ∅ 0 fun _ => true).1 limits
  refine ⟨limits, stats, answered.trans ?_, visits⟩
  have ranked : hitsOf ((byDistance (fun member => distance [0, 0, 0, 0] member.vector)
      (tied.members.values.filter (searchable 0 (fun _ => true) [] ∅))).take 2) =
      [([97], F64.ofBits 0x3ff0000000000000), ([99], F64.ofBits 0x3ff0000000000000)] := by decide +kernel
  rw [ranked]

end Sider.Collection
