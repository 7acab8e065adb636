/-
**What the planner makes of a command.**

A plannable command is sent whole to the owner of all its keys, or it reads, counts, deletes or writes
several keys and is split by owner (`Plans`). The fragments of a split command are the parts of its keys,
one per owner, and the replies of the fragments assemble to the reply for all the keys: a sum of counts,
the rows in the original order, or the first refusal.
-/

import Sider.Storage.Routing
import Sider.Storage.Transaction

namespace Sider

open Grouping

variable {commands : List Command} {watched keys : List Bytes} {command : Command} {owners : List Nat}
  {own : Nat} {plan : CommandPlan}

namespace ShardRouter

variable {router : ShardRouter}

/-! ### Splitting keys -/

section

variable (router : ShardRouter)

theorem foldl_splitKey (owners : List Nat) (rest done : List Bytes) (placed : List (Nat × Nat)) :
    (rest.foldl router.splitKey (group router.shardFor done, placed)).1 =
        group router.shardFor (done ++ rest) ∧
      (rest.foldl router.splitKey (group router.shardFor done, placed)).2.map
          (fun place => (owners.idxOf place.1, place.2)) =
        placed.map (fun place => (owners.idxOf place.1, place.2)) ++
          positions router.shardFor owners done rest := by
  induction rest generalizing done placed with
  | nil => simp [positions]
  | cons key others ih =>
    have grouped : intoGroup (group router.shardFor done) (router.shardFor key) key =
        group router.shardFor (done ++ [key]) := by
      unfold group
      rw [List.foldl_append]
      rfl
    have count : ((group router.shardFor done).get? (router.shardFor key)).getD [] =
        part router.shardFor done (router.shardFor key) :=
      getD_foldl_intoGroup router.shardFor done ∅ (router.shardFor key)
    have step : router.splitKey (group router.shardFor done, placed) key =
        (group router.shardFor (done ++ [key]),
          placed ++ [(router.shardFor key, (part router.shardFor done (router.shardFor key)).length)]) := by
      unfold splitKey
      dsimp only
      rw [grouped, count]
    obtain ⟨groups, places⟩ := ih (done ++ [key])
      (placed ++ [(router.shardFor key, (part router.shardFor done (router.shardFor key)).length)])
    rw [List.foldl_cons, step]
    refine ⟨by rw [groups, List.append_assoc]; rfl, ?_⟩
    rw [places, positions, List.map_append, List.append_assoc]
    rfl

/-- The owners of some keys, in order. -/
def ownersOf (router : ShardRouter) (keys : List Bytes) : List Nat :=
  (group router.shardFor keys).keys

theorem covers_ownersOf (keys : List Bytes) : Covers router.shardFor keys (router.ownersOf keys) :=
  covers_group router.shardFor keys

/-- One fragment per owner, with its part of the keys. -/
theorem splitKeys_eq (keys : List Bytes) (command : List Bytes → Command)
    (jointCommit ordered : Bool) :
    router.splitKeys keys command jointCommit ordered =
      { fragments := (router.ownersOf keys).map fun own => ⟨own, command (part router.shardFor keys own)⟩
        reply := if ordered then
            .orderedBulk (positions router.shardFor (router.ownersOf keys) [] keys)
              ((router.ownersOf keys).map fun own => (part router.shardFor keys own).length)
          else .sum (router.ownersOf keys).length
        jointCommit := jointCommit } := by
  obtain ⟨groups, places⟩ := foldl_splitKey router (router.ownersOf keys) keys [] []
  have start : group router.shardFor ([] : List Bytes) = ∅ := rfl
  rw [start] at groups places
  unfold splitKeys
  generalize keys.foldl router.splitKey (∅, []) = split at groups places
  obtain ⟨found, raw⟩ := split
  rw [List.nil_append] at groups
  subst groups
  have parts : (group router.shardFor keys).values =
      (router.ownersOf keys).map fun own => part router.shardFor keys own := by
    show ((group router.shardFor keys).entries.map Prod.snd) = _
    rw [entries_group, List.map_map]
    rfl
  have sizes : (group router.shardFor keys).size = (router.ownersOf keys).length := by
    show (group router.shardFor keys).entries.length = ((group router.shardFor keys).entries.map _).length
    rw [List.length_map]
  dsimp only
  rw [entries_group, List.map_map, parts, List.map_map, sizes]
  rw [show (group router.shardFor keys).keys = router.ownersOf keys from rfl, places]
  rfl

/-- The owners of some pairs, in order. -/
def pairOwners (router : ShardRouter) (entries : List (Bytes × Bytes)) : List Nat :=
  (group (fun entry => router.shardFor entry.1) entries).keys

theorem covers_pairOwners (entries : List (Bytes × Bytes)) :
    Covers (fun entry => router.shardFor entry.1) entries (router.pairOwners entries) :=
  covers_group _ entries

/-- One fragment per owner, with its part of the pairs. -/
theorem splitMset_eq (entries : List (Bytes × Bytes)) :
    router.splitMset entries =
      { fragments := (router.pairOwners entries).map fun own =>
          ⟨own, .mSet (part (fun entry => router.shardFor entry.1) entries own)⟩
        reply := .allOk (router.pairOwners entries).length
        jointCommit := true } := by
  have sizes : (group (fun entry => router.shardFor entry.1) entries).size =
      (router.pairOwners entries).length := by
    show (group _ entries).entries.length = ((group _ entries).entries.map _).length
    rw [List.length_map]
  show CommandPlan.mk ((group (fun entry => router.shardFor entry.1) entries).entries.map _)
    (.allOk (group (fun entry => router.shardFor entry.1) entries).size) true = _
  rw [entries_group, List.map_map, sizes]
  rfl

end

/-! ### The two kinds of plan -/

theorem ownersOf_lt (member : own ∈ router.ownersOf keys) : own < router.count := by
  obtain ⟨key, _, rfl⟩ := (mem_group router.shardFor).mp (OrdMap.mem_keys.mp member)
  exact router.shardFor_lt key

theorem pairOwners_lt {entries : List (Bytes × Bytes)} (member : own ∈ router.pairOwners entries) :
    own < router.count := by
  obtain ⟨entry, _, rfl⟩ := (mem_group _).mp (OrdMap.mem_keys.mp member)
  exact router.shardFor_lt entry.1

theorem transactionParticipants_lt {shard : Nat}
    (member : shard ∈ router.transactionParticipants commands watched) : shard < router.count := by
  unfold transactionParticipants at member
  dsimp only at member
  split_ifs at member
  · exact List.mem_singleton.mp member ▸ router.positive
  · exact List.mem_range.mp (List.mem_filter.mp member).1

/-- The owner of every key of a queue takes part. -/
theorem shardFor_mem_participants {key : Bytes}
    (member : key ∈ watched ++ commands.flatMap Command.visitKeys) :
    router.shardFor key ∈ router.transactionParticipants commands watched := by
  have found : router.shardFor key ∈ (List.range router.count).filter fun owner =>
      (watched ++ commands.flatMap Command.visitKeys).any fun key => router.shardFor key = owner :=
    List.mem_filter.mpr ⟨List.mem_range.mpr (router.shardFor_lt key),
      List.any_eq_true.mpr ⟨key, member, by simp⟩⟩
  unfold transactionParticipants
  dsimp only
  split_ifs with empty
  · rw [List.isEmpty_iff.mp empty] at found
    cases found
  · exact found

/-- A single participant owns every key of the command. -/
theorem single_participant (single : router.transactionParticipants [command] [] = [own]) :
    own < router.count ∧ (command.visitKeys = [] → own = 0) ∧
      ∀ key ∈ command.visitKeys, router.shardFor key = own := by
  refine ⟨?_, fun keyless => ?_, fun key member => ?_⟩
  · have listed : own ∈ router.transactionParticipants [command] [] := by
      rw [single]
      exact List.mem_singleton_self own
    exact transactionParticipants_lt listed
  · unfold transactionParticipants at single
    simp [keyless] at single
    exact single.symm
  · have found : router.shardFor key ∈ router.transactionParticipants [command] [] :=
      shardFor_mem_participants (by simpa using member)
    rw [single] at found
    exact List.mem_singleton.mp found

/-- A plan sends the command to the owner of all its keys, or splits one of four commands. -/
inductive Plans (router : ShardRouter) : Command → CommandPlan → Prop
  | direct {command : Command} {own : Nat} (bound : own < router.count)
      (keyless : command.visitKeys = [] → own = 0)
      (owns : ∀ key ∈ command.visitKeys, router.shardFor key = own) :
      Plans router command ⟨[⟨own, command⟩], .direct, false⟩
  | mGet (keys : List Bytes) : Plans router (.mGet keys) (router.splitKeys keys .mGet false true)
  | exists (keys : List Bytes) :
      Plans router (.exists keys) (router.splitKeys keys .exists false false)
  | del (keys : List Bytes) : Plans router (.del keys) (router.splitKeys keys .del true false)
  | mSet (entries : List (Bytes × Bytes)) : Plans router (.mSet entries) (router.splitMset entries)

theorem plans_of_planTransactionCommand
    (planned : router.planTransactionCommand command = .ok plan) :
    Plans router command plan := by
  unfold planTransactionCommand at planned
  split at planned
  · rename_i own single
    cases planned
    obtain ⟨bound, keyless, owns⟩ := single_participant single
    exact .direct bound keyless owns
  · cases command with
    | mGet keys => exact Except.ok.inj planned ▸ .mGet keys
    | «exists» keys => exact Except.ok.inj planned ▸ .exists keys
    | del keys => exact Except.ok.inj planned ▸ .del keys
    | mSet entries => exact Except.ok.inj planned ▸ .mSet entries
    | _ => cases planned

/-- Each owner has one fragment, whose keys are keys of the command that it owns. -/
structure WellPlanned (router : ShardRouter) (command : Command) (fragments : List Fragment) :
    Prop where
  nodup : (fragments.map Fragment.owner).Nodup
  bound : ∀ fragment ∈ fragments, fragment.owner < router.count
  owns : ∀ fragment ∈ fragments, ∀ key ∈ fragment.command.visitKeys, router.shardFor key = fragment.owner
  keys : ∀ fragment ∈ fragments, ∀ key ∈ fragment.command.visitKeys, key ∈ command.visitKeys
  ordinary : command.isMemory = false → ∀ fragment ∈ fragments, fragment.command.isMemory = false
  placed : ∀ fragment ∈ fragments, (command.visitKeys = [] ∧ fragment.owner = 0) ∨
    ∃ key ∈ command.visitKeys, router.shardFor key = fragment.owner

/-- Parts of a list of keys, or of pairs. -/
theorem wellPlanned_parts {α : Type} {owner : α → Nat} {values : List α} {split : List α → Command}
    (nodup : owners.Nodup) (some_ : ∀ own ∈ owners, ∃ value ∈ values, owner value = own)
    (keyOf : α → Bytes) (visits : ∀ values, (split values).visitKeys = values.map keyOf)
    (routes : ∀ value, owner value = router.shardFor (keyOf value))
    (whole : command.visitKeys = values.map keyOf)
    (plain : ∀ values, (split values).isMemory = false) :
    WellPlanned router command (owners.map fun own => ⟨own, split (part owner values own)⟩) := by
  refine ⟨?_, fun fragment member => ?_, fun fragment member key visited => ?_,
    fun fragment member key visited => ?_, fun _ fragment member => ?_, fun fragment member => ?_⟩
  · rw [List.map_map]
    exact (List.map_id _).symm ▸ nodup
  all_goals obtain ⟨own, listed, rfl⟩ := List.mem_map.mp member
  · obtain ⟨value, _, rfl⟩ := some_ own listed
    exact routes value ▸ router.shardFor_lt _
  · rw [visits] at visited
    obtain ⟨value, inside, rfl⟩ := List.mem_map.mp visited
    rw [← routes]
    simpa using (List.mem_filter.mp inside).2
  · rw [visits] at visited
    obtain ⟨value, inside, rfl⟩ := List.mem_map.mp visited
    exact whole ▸ List.mem_map_of_mem (List.mem_filter.mp inside).1
  · exact plain _
  · obtain ⟨value, inside, rfl⟩ := some_ own listed
    exact .inr ⟨keyOf value, whole ▸ List.mem_map_of_mem inside, (routes value).symm⟩

theorem Plans.wellPlanned (plans : Plans router command plan) :
    WellPlanned router command plan.fragments := by
  have nodup : ∀ keys, (router.ownersOf keys).Nodup := fun keys => (router.covers_ownersOf keys).nodup
  have some_ : ∀ keys, ∀ own ∈ router.ownersOf keys, ∃ key ∈ keys, router.shardFor key = own :=
    fun keys own member => (mem_group router.shardFor).mp (OrdMap.mem_keys.mp member)
  cases plans with
  | direct bound keyless owns =>
    refine ⟨List.nodup_singleton _, fun fragment member => ?_, fun fragment member => ?_,
      fun fragment member => ?_, fun plain fragment member => ?_, fun fragment member => ?_⟩
    all_goals obtain rfl := List.mem_singleton.mp member
    · exact bound
    · exact owns
    · exact fun _ visited => visited
    · exact plain
    · rcases visits : command.visitKeys with _ | ⟨key, rest⟩
      · exact .inl ⟨rfl, keyless visits⟩
      · exact .inr ⟨key, List.mem_cons_self, owns key (visits ▸ List.mem_cons_self)⟩
  | mGet keys =>
    rw [splitKeys_eq]
    exact wellPlanned_parts (nodup keys) (some_ keys) id (fun _ => (List.map_id _).symm)
      (fun _ => rfl) (List.map_id _).symm fun _ => rfl
  | «exists» keys =>
    rw [splitKeys_eq]
    exact wellPlanned_parts (nodup keys) (some_ keys) id (fun _ => (List.map_id _).symm)
      (fun _ => rfl) (List.map_id _).symm fun _ => rfl
  | del keys =>
    rw [splitKeys_eq]
    exact wellPlanned_parts (nodup keys) (some_ keys) id (fun _ => (List.map_id _).symm)
      (fun _ => rfl) (List.map_id _).symm fun _ => rfl
  | mSet entries =>
    rw [splitMset_eq]
    exact wellPlanned_parts (router.covers_pairOwners entries).nodup
      (fun _ member => (mem_group _).mp (OrdMap.mem_keys.mp member)) Prod.fst
      (fun _ => rfl) (fun _ => rfl) rfl fun _ => rfl

/-- A command without keys is sent to owner 0. -/
theorem planTransactionCommand_keyless (router : ShardRouter) (keyless : command.visitKeys = []) :
    router.planTransactionCommand command = .ok ⟨[⟨0, command⟩], .direct, false⟩ := by
  have none_ : ((List.range router.count).filter fun owner =>
      ([] : List Bytes).any fun key => router.shardFor key = owner) = [] :=
    List.filter_eq_nil_iff.mpr fun _ _ => Bool.false_ne_true
  have single : router.transactionParticipants [command] [] = [0] := by
    unfold transactionParticipants
    simp only [List.flatMap_cons, List.flatMap_nil, List.append_nil, keyless]
    rw [none_]
    rfl
  unfold planTransactionCommand
  rw [single]

end ShardRouter

/-! ### Assembling replies -/

namespace ReplyPlan

theorem assembleSum_integers (counts : List Nat) (total : Nat)
    (small : (total + counts.sum : Int) ≤ Machine.i64Max) :
    assembleSum (counts.map fun (count : Nat) => Reply.integer count) total =
      .ok (.integer (total + counts.sum : Nat)) := by
  induction counts generalizing total with
  | nil => rfl
  | cons count rest ih =>
    rw [List.sum_cons] at small ⊢
    rw [List.map_cons, assembleSum, if_pos (Int.natCast_nonneg count), if_pos (by omega),
      Int.toNat_natCast, ih (total + count) (by push_cast at small ⊢; omega), Nat.add_assoc]

/-- The counts of the fragments add up. -/
theorem assemble_sum (counts : List Nat) (small : (counts.sum : Int) ≤ Machine.i64Max) :
    (ReplyPlan.sum counts.length).assemble (counts.map fun (count : Nat) => Reply.integer count) =
      .ok (.integer counts.sum) := by
  rw [assemble, if_pos (List.length_map ..), assembleSum_integers counts 0 (by omega), Nat.zero_add]

theorem assembleRows_bulks {rows : List (List Reply)}
    (bulks : ∀ row ∈ rows, row.all isBulk = true) :
    assembleRows (rows.map Reply.array) (rows.map List.length) = .ok (rows.map fun row => row.map some) := by
  induction rows with
  | nil => rfl
  | cons row rest ih =>
    rw [List.map_cons, List.map_cons, assembleRows, bulks row List.mem_cons_self,
      ih fun other member => bulks other (List.mem_cons_of_mem _ member)]
    simp [Except.map]

/-- The rows of the fragments, read in the original order. -/
theorem assemble_orderedBulk {owner : Bytes → Nat} (covers : Covers owner keys owners)
    (read : Bytes → Reply) (bulks : ∀ key, isBulk (read key) = true) :
    (ReplyPlan.orderedBulk (positions owner owners [] keys)
        (owners.map fun own => (part owner keys own).length)).assemble
        (owners.map fun own => Reply.array ((part owner keys own).map read)) =
      .ok (.array (keys.map read)) := by
  have bulk_rows : ∀ row ∈ owners.map fun own => (part owner keys own).map read,
      row.all isBulk = true := by
    intro row member
    obtain ⟨own, _, rfl⟩ := List.mem_map.mp member
    refine List.all_eq_true.mpr fun reply inside => ?_
    obtain ⟨key, _, rfl⟩ := List.mem_map.mp inside
    exact bulks key
  have rows : assembleRows (owners.map fun own => Reply.array ((part owner keys own).map read))
      (owners.map fun own => (part owner keys own).length) =
        .ok (owners.map fun own => (part owner keys own).map (some ∘ read)) := by
    simpa [List.map_map, Function.comp_def] using assembleRows_bulks bulk_rows
  obtain ⟨left, taken, none_⟩ := takeAll_parts covers read
  unfold assemble
  dsimp only
  rw [if_pos (by rw [List.length_map, List.length_map]), rows]
  dsimp only
  rw [taken]
  dsimp only
  rw [none_]
  rfl

theorem assembleOk_all (replies : List Reply) (fine : ∀ reply ∈ replies, reply = .ok) :
    assembleOk replies = .ok .ok := by
  induction replies with
  | nil => rfl
  | cons reply rest ih =>
    obtain rfl := fine reply List.mem_cons_self
    exact ih fun other member => fine other (List.mem_cons_of_mem _ member)

theorem assembleOk_refused (replies : List Reply) {error : ExecutionError}
    (answers : ∀ reply ∈ replies, reply = .ok ∨ reply = .error error)
    (refused : Reply.error error ∈ replies) : assembleOk replies = .ok (.error error) := by
  induction replies with
  | nil => cases refused
  | cons reply rest ih =>
    rcases answers reply List.mem_cons_self with rfl | rfl
    · refine ih (fun other member => answers other (List.mem_cons_of_mem _ member)) ?_
      rcases List.mem_cons.mp refused with same | later
      · cases same
      · exact later
    · rfl

end ReplyPlan

end Sider
