/-
**Values grouped by an owner.**

`group owner values` maps each owner to its values, in their original order. A quantity summed over
the groups is the same as summed over all values (`sum_parts`), and the place of each value in its
group recovers the original order (`takeAll_parts`).
-/

import Mathlib.Algebra.BigOperators.Group.List.Basic
import Sider.Lib.OrdMap

namespace Grouping

variable {κ α : Type} [LinearOrder κ] {own : κ}

variable {values : List α} {owners : List κ}

/-- Append a value to the group of its owner. -/
def intoGroup (groups : OrdMap κ (List α)) (owner : κ) (value : α) : OrdMap κ (List α) :=
  groups.insert owner ((groups.get? owner).getD [] ++ [value])

def group (owner : α → κ) (values : List α) : OrdMap κ (List α) :=
  values.foldl (fun groups value => intoGroup groups (owner value) value) ∅

/-- The values of one owner, in order. -/
def part (owner : α → κ) (values : List α) (own : κ) : List α :=
  values.filter fun value => owner value = own

section Groups

variable (owner : α → κ)

theorem part_cons (value : α) (rest : List α) (own : κ) :
    part owner (value :: rest) own =
      if owner value = own then value :: part owner rest own else part owner rest own := by
  unfold part
  rw [List.filter_cons]
  simp only [decide_eq_true_eq]

theorem part_append (first second : List α) (own : κ) :
    part owner (first ++ second) own = part owner first own ++ part owner second own :=
  List.filter_append ..

theorem getD_foldl_intoGroup (values : List α) (groups : OrdMap κ (List α)) (own : κ) :
    ((values.foldl (fun groups value => intoGroup groups (owner value) value) groups).get? own).getD [] =
      (groups.get? own).getD [] ++ part owner values own := by
  induction values generalizing groups with
  | nil => exact (List.append_nil _).symm
  | cons value rest ih =>
    rw [List.foldl_cons, ih, intoGroup, OrdMap.get?_insert, part_cons]
    by_cases same : owner value = own
    · rw [if_pos same, if_pos same.symm, same, Option.getD_some, List.append_assoc]
      rfl
    · rw [if_neg same, if_neg fun equal => same equal.symm]

theorem mem_foldl_intoGroup (values : List α) (groups : OrdMap κ (List α)) (own : κ) :
    own ∈ values.foldl (fun groups value => intoGroup groups (owner value) value) groups ↔
      own ∈ groups ∨ ∃ value ∈ values, owner value = own := by
  induction values generalizing groups with
  | nil => simp
  | cons value rest ih =>
    rw [List.foldl_cons, ih, intoGroup, OrdMap.mem_insert]
    simp only [List.mem_cons, exists_eq_or_imp]
    tauto

theorem mem_group : own ∈ group owner values ↔ ∃ value ∈ values, owner value = own := by
  rw [group, mem_foldl_intoGroup]
  simp

theorem get?_group (member : own ∈ group owner values) :
    (group owner values).get? own = some (part owner values own) := by
  obtain ⟨found, at_⟩ := OrdMap.mem_iff.mp member
  have all := getD_foldl_intoGroup owner values ∅ own
  rw [← group, at_] at all
  rw [at_]
  exact congrArg some all

/-- The groups are the parts of their owners. -/
theorem entries_group (values : List α) :
    (group owner values).entries =
      (group owner values).keys.map fun own => (own, part owner values own) := by
  show _ = ((group owner values).entries.map Prod.fst).map _
  rw [List.map_map]
  refine (List.map_id _).symm.trans (List.map_congr_left fun entry member => ?_)
  have found : (group owner values).get? entry.1 = some entry.2 := OrdMap.get?_eq_some_iff.mpr member
  have own : entry.1 ∈ group owner values := OrdMap.mem_iff.mpr ⟨_, found⟩
  rw [get?_group owner own] at found
  exact Prod.ext rfl (Option.some.inj found).symm

end Groups

/-! ### Sums over the parts -/

/-- A list of owners, once each, that has the owner of every value. -/
structure Covers (owner : α → κ) (values : List α) (owners : List κ) : Prop where
  nodup : owners.Nodup
  member : ∀ value ∈ values, owner value ∈ owners

theorem covers_group (owner : α → κ) (values : List α) :
    Covers owner values (group owner values).keys :=
  ⟨(group owner values).nodup_keys, fun value member =>
    OrdMap.mem_keys.mpr ((mem_group owner).mpr ⟨value, member, rfl⟩)⟩

theorem sum_indicator (nodup : owners.Nodup) (member : own ∈ owners) (n : Nat) :
    (owners.map fun other => if own = other then n else 0).sum = n := by
  have zero : ((owners.erase own).map fun other => if own = other then n else 0).sum = 0 := by
    refine List.sum_eq_zero fun value inside => ?_
    obtain ⟨other, among, rfl⟩ := List.mem_map.mp inside
    exact if_neg (nodup.mem_erase_iff.mp among).1.symm
  rw [← List.sum_map_erase _ member, zero, if_pos rfl, Nat.add_zero]

/-- A sum over all values is the sum over the parts. -/
theorem sum_parts {owner : α → κ} (covers : Covers owner values owners) (weight : α → Nat) :
    (owners.map fun own => ((part owner values own).map weight).sum).sum =
      (values.map weight).sum := by
  induction values with
  | nil => simp [part]
  | cons value rest ih =>
    have tail := ih ⟨covers.nodup, fun other member => covers.member other (List.mem_cons_of_mem _ member)⟩
    have split : ∀ own, ((part owner (value :: rest) own).map weight).sum =
        (if owner value = own then weight value else 0) + ((part owner rest own).map weight).sum := by
      intro own
      rw [part_cons]
      by_cases same : owner value = own <;> simp [same]
    simp only [split]
    rw [List.sum_map_add, sum_indicator covers.nodup (covers.member value List.mem_cons_self), tail,
      List.map_cons, List.sum_cons]

theorem countP_parts {owner : α → κ} (covers : Covers owner values owners) (test : α → Bool) :
    (owners.map fun own => (part owner values own).countP test).sum = values.countP test := by
  have weigh : ∀ list : List α,
      list.countP test = (list.map fun value => if test value then 1 else 0).sum := by
    intro list
    induction list with
    | nil => rfl
    | cons value rest ih =>
      rw [List.countP_cons, List.map_cons, List.sum_cons, ih, Nat.add_comm]
  simp only [weigh]
  exact sum_parts covers _

/-! ### The original order -/

section Order

variable {β : Type} {owner : α → κ}

/-- Take one value out of its row. -/
def takePosition (state : List (List (Option β)) × List β) (position : Nat × Nat) :
    Option (List (List (Option β)) × List β) :=
  state.1[position.1]?.bind fun row =>
    row[position.2]?.join.map fun value =>
      (state.1.set position.1 (row.set position.2 none), state.2 ++ [value])

/-- A row whose first values have been taken; a value stands in it as what was read for it. -/
def rowAfter (owner : α → κ) (read : α → β) (done values : List α) (own : κ) : List (Option β) :=
  List.replicate (part owner done own).length none ++ (part owner values own).map (some ∘ read)

/-- Where a value stands: the row of its owner, and the number of values before it in that row. -/
def position (owner : α → κ) (owners : List κ) (done : List α) (value : α) : Nat × Nat :=
  (owners.idxOf (owner value), (part owner done (owner value)).length)

/-- The positions of all values, given those already placed. -/
def positions (owner : α → κ) (owners : List κ) : List α → List α → List (Nat × Nat)
  | _, [] => []
  | done, value :: rest => position owner owners done value :: positions owner owners (done ++ [value]) rest

theorem takePosition_step (nodup : owners.Nodup) (read : α → β) (done rest : List α) (value : α)
    (member : owner value ∈ owners) (taken : List β) :
    takePosition (owners.map (rowAfter owner read done (value :: rest)), taken)
        (position owner owners done value) =
      some (owners.map (rowAfter owner read (done ++ [value]) rest), taken ++ [read value]) := by
  have bound : owners.idxOf (owner value) < owners.length := List.idxOf_lt_length_iff.mpr member
  have at_ : owners[owners.idxOf (owner value)]? = some (owner value) := by
    rw [List.getElem?_eq_getElem bound]
    exact congrArg some (List.getElem_idxOf bound)
  have row : rowAfter owner read done (value :: rest) (owner value) =
      List.replicate (part owner done (owner value)).length none ++
        some (read value) :: (part owner rest (owner value)).map (some ∘ read) := by
    rw [rowAfter, part_cons, if_pos rfl]
    rfl
  unfold takePosition position
  rw [List.getElem?_map, at_, Option.map_some, Option.bind_some, row]
  rw [List.getElem?_append_right (by simp), List.length_replicate, Nat.sub_self]
  refine congrArg some (Prod.ext ?_ rfl)
  refine List.ext_getElem? fun index => ?_
  rw [List.getElem?_set, List.getElem?_map, List.getElem?_map]
  by_cases here : owners.idxOf (owner value) = index
  · subst here
    rw [if_pos rfl, if_pos (by simpa using bound), at_, Option.map_some]
    refine congrArg some ?_
    rw [List.set_append_right _ _ (by simp), List.length_replicate, Nat.sub_self]
    unfold rowAfter
    rw [part_append, part_cons, if_pos rfl, List.length_append, List.replicate_add,
      List.append_assoc]
    rfl
  · rw [if_neg here]
    cases found : owners[index]? with
    | none => rfl
    | some own =>
      have other : ¬ owner value = own := by
        rintro rfl
        obtain ⟨inside, equal⟩ := List.getElem?_eq_some_iff.mp found
        exact here (by rw [← equal, nodup.idxOf_getElem])
      refine congrArg some ?_
      unfold rowAfter
      rw [part_append, part_cons, part_cons, if_neg other, if_neg other]
      simp [part]

/-- Taking every position in turn gives what was read in the original order, and empties the rows. -/
theorem takeAll (nodup : owners.Nodup) (read : α → β) (values done : List α) (taken : List β)
    (member : ∀ value ∈ values, owner value ∈ owners) :
    (positions owner owners done values).foldlM takePosition
        (owners.map (rowAfter owner read done values), taken) =
      some (owners.map (rowAfter owner read (done ++ values) []), taken ++ values.map read) := by
  induction values generalizing done taken with
  | nil => simp [positions]
  | cons value rest ih =>
    rw [positions, List.foldlM_cons, takePosition_step nodup read done rest value
      (member value List.mem_cons_self)]
    show List.foldlM takePosition _ _ = _
    rw [ih _ _ fun other inside => member other (List.mem_cons_of_mem _ inside)]
    simp

theorem takeAll_parts (covers : Covers owner values owners) (read : α → β) :
    ∃ rows, (positions owner owners [] values).foldlM takePosition
        (owners.map fun own => (part owner values own).map (some ∘ read), []) =
          some (rows, values.map read) ∧
      rows.any (fun row => row.any Option.isSome) = false := by
  have all := takeAll covers.nodup read values [] [] covers.member
  refine ⟨_, all, ?_⟩
  refine List.any_eq_false.mpr fun row member => ?_
  obtain ⟨own, _, rfl⟩ := List.mem_map.mp member
  simp [rowAfter, part]

end Order

end Grouping
