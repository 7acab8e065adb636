/-
**Every planned command keeps the owners the parts of the union.**

One lemma for the commands on one key, one for each command on several keys, and one for the commands
without keys; `unites_step` puts them together and `unites_queue` is a whole queue. A command on several
keys is treated alike whether one owner has all of its keys or several share them: the keys are split
over a list of owners that covers them.
-/

import Mathlib.Algebra.BigOperators.Group.Finset.Basic
import Sider.Storage.Union

namespace Sider

open Store Grouping

variable {command : Command} {key : Bytes} {plan : CommandPlan} {split : List Bytes → Command}
  {keys : List Bytes} {list : List Nat} {own rest : Nat}

variable {router : ShardRouter} {configs : Nat → StoreConfig} {time : Clock} {owners : Nat → Store}
  {u : Store}

/-! ### Purging the parts -/

/-- The owners drop elapsed keys of theirs, and the union drops the same. -/
theorem Unites.purgeAll (unites : Unites router configs time owners u) {own : Nat → List Bytes}
    (parts : ∀ shard key, key ∈ own shard ↔ key ∈ keys ∧ router.shardFor key = shard) (now : Nat) :
    Unites router configs time (fun shard => (owners shard).purgeAll now (own shard))
      (u.purgeAll now keys) := by
  refine ⟨fun shard bound => (unites.sound shard bound).purgeAll _ _, fun shard bound => ?_,
    fun shard bound => ?_, fun key => ?_, fun shard bound key other => ?_, unites.union.purgeAll _ _,
    ?_, ?_⟩
  · rw [purgeAll_clock, unites.clock shard bound]
  · rw [purgeAll_config, unites.config shard bound]
  · have member : key ∈ own (router.shardFor key) ↔ key ∈ keys := by simp [parts]
    rw [image?_purgeAll, image?_purgeAll, live?, live?, unites.images key]
    simp only [member]
  · rw [image?_purgeAll, if_neg (by simp [parts, other])]
    exact unites.foreign shard bound key other
  · rw [purgeAll_clock, unites.unionClock]
  · rw [purgeAll_config]
    exact unites.room

/-! ### Commands on one key -/

theorem onKey_visitKeys (own : command.onKey key) : command.visitKeys = [key] := by
  cases command <;> first | exact own.elim | exact congrArg (fun key => [key]) own

section

variable (unites : Unites router configs time owners u)

include unites

theorem Unites.purge (key : Bytes) (now : Nat) :
    Unites router configs time
      (fun shard => if router.shardFor key = shard then (owners shard).purge now key else owners shard)
      (u.purge now key) := by
  have parts : ∀ shard probe, probe ∈ (if router.shardFor key = shard then [key] else []) ↔
      probe ∈ [key] ∧ router.shardFor probe = shard := by
    intro shard probe
    by_cases same : probe = key
    · subst same
      by_cases mine : router.shardFor probe = shard <;> simp [mine]
    · by_cases mine : router.shardFor key = shard <;> simp [mine, same]
  have purged := unites.purgeAll parts now
  have same : (fun shard => (owners shard).purgeAll now (if router.shardFor key = shard then [key] else [])) =
      fun shard => if router.shardFor key = shard then (owners shard).purge now key else owners shard := by
    funext shard
    split_ifs <;> rfl
  exact same ▸ purged

/-- The union has room for what the owner of a key admits there. -/
theorem Unites.serving (key : Bytes) : Serving key time.now (owners (router.shardFor key)) u := by
  have bound := router.shardFor_lt key
  refine ⟨unites.images key, (unites.clock _ bound).trans unites.unionClock.symm, fun value fits => ?_⟩
  have purged := unites.purge key time.now
  have slack := purged.slack bound
  have images := purged.images key
  have sound := purged.sound _ bound
  have config := purged.config _ bound
  simp only [if_true] at slack images sound config
  obtain ⟨inhabited, small⟩ := canReplace_fits sound fits
  have held : ((owners (router.shardFor key)).purge time.now key).held key =
      (u.purge time.now key).held key := by
    unfold held
    rw [images]
  rw [config, held] at small
  exact canReplace_of_fits purged.union inhabited (by omega)

theorem stepped_onKey (own : command.onKey key)
    (plans : router.planTransactionCommand command = .ok plan) :
    Stepped router configs time owners u command plan := by
  have visits := onKey_visitKeys own
  obtain rfl : plan = ⟨[⟨router.shardFor key, command⟩], .direct, false⟩ := by
    cases ShardRouter.plans_of_planTransactionCommand plans with
    | direct bound keyless owns =>
      rw [owns key (visits ▸ List.mem_singleton_self key)]
    | _ => exact own.elim
  have bound := router.shardFor_lt key
  have serving := unites.serving key
  rw [← unites.clock _ bound] at serving
  have here : accepted owners [⟨router.shardFor key, command⟩] (router.shardFor key) =
      ((executeQueued command).run (owners (router.shardFor key))).2 := by simp [accepted]
  rcases executeQueued_serves own serving with ⟨refused, kept⟩ | ⟨granted, reply, kept⟩
  · refine stepped_refused unites plans (List.mem_singleton.mpr refused.symm)
      (congrArg Except.ok refused) fun _ probe visited => ?_
    obtain rfl := List.mem_singleton.mp (visits ▸ visited)
    rw [here, kept, image?_purge, if_pos rfl, unites.clock _ bound]
  · refine stepped_granted unites plans (fun answer member => ?_) (congrArg Except.ok reply.symm)
      (reply ▸ Reply.refused_eq_false granted) (fun several => absurd several (by simp))
      fun probe visited => ?_
    · exact List.mem_singleton.mp member ▸ Reply.refused_eq_false granted
    · obtain rfl := List.mem_singleton.mp (visits ▸ visited)
      rw [here, kept]

end

/-! ### Commands without keys -/

theorem stepped_keyless (reply : Reply) (unites : Unites router configs time owners u)
    (answers : executeQueued command = pure reply) (keyless : command.visitKeys = [])
    (granted : reply.refused = false) (plans : router.planTransactionCommand command = .ok plan)
    (direct : plan.reply = .direct) (single : ∃ own, plan.fragments = [⟨own, command⟩]) :
    Stepped router configs time owners u command plan := by
  obtain ⟨own, only⟩ := single
  have replies : fragmentReplies owners plan = [reply] := by
    unfold fragmentReplies
    rw [only, List.map_singleton, answers]
    rfl
  refine stepped_granted unites plans (fun answer member => ?_) ?_ ?_ (fun several => ?_)
    fun key visited => ?_
  · rw [replies] at member
    exact List.mem_singleton.mp member ▸ granted
  · rw [replies, direct, answers]
    rfl
  · rw [answers]
    exact granted
  · rw [only] at several
    exact absurd several (by simp)
  · rw [keyless] at visited
    cases visited

/-! ### Commands on several keys -/

section Parts

/-- A split over a list of owners, or the whole list of values at one owner. -/
structure Splits (router : ShardRouter) {α : Type} (owner : α → Nat) (split : List α → Command)
    (values : List α) (list : List Nat) (plan : CommandPlan) : Prop where
  covers : Covers owner values list
  bound : ∀ own ∈ list, own < router.count
  fragments : plan.fragments = list.map fun own => ⟨own, split (part owner values own)⟩

theorem splits_direct {α : Type} {owner : α → Nat} {split : List α → Command} {values : List α}
    (bound : own < router.count) (owns : ∀ value ∈ values, owner value = own) :
    Splits router owner split values [own] ⟨[⟨own, split values⟩], .direct, false⟩ := by
  refine ⟨⟨List.nodup_singleton own, fun value member => ?_⟩, fun other member => ?_, ?_⟩
  · exact List.mem_singleton.mpr (owns value member)
  · exact List.mem_singleton.mp member ▸ bound
  · have whole : part owner values own = values :=
      List.filter_eq_self.mpr fun value member => by simp [owns value member]
    rw [List.map_singleton, whole]

theorem splits_keys (joint ordered : Bool) :
    Splits router router.shardFor split keys (router.ownersOf keys)
      (router.splitKeys keys split joint ordered) :=
  ⟨router.covers_ownersOf keys, fun _ => ShardRouter.ownersOf_lt, by rw [ShardRouter.splitKeys_eq]⟩

section

variable (unites : Unites router configs time owners u)

include unites

/-- Keys treated one by one. -/
theorem inside_parts (splits : Splits router router.shardFor split keys list plan)
    {effect : Option Image → Option Image} (acts : ∀ s keys, s.clock = time → ∀ key ∈ keys,
      ((executeQueued (split keys)).run s).2.image? key = effect (s.image? key)) :
    ∀ key ∈ keys, (accepted owners plan.fragments (router.shardFor key)).image? key =
      ((executeQueued (split keys)).run u).2.image? key := by
  intro key member
  have inside : key ∈ part router.shardFor keys (router.shardFor key) :=
    List.mem_filter.mpr ⟨member, by simp⟩
  rw [splits.fragments, accepted_map, if_pos (splits.covers.member key member),
    acts u keys unites.unionClock key member, ← unites.images key]
  exact acts _ _ (unites.clock _ (router.shardFor_lt key)) key inside

theorem replies_parts {read : List Bytes → Store → Reply}
    (splits : Splits router router.shardFor split keys list plan)
    (answers : ∀ s keys, s.clock = time → ((executeQueued (split keys)).run s).1 = read keys s) :
    fragmentReplies owners plan = list.map fun own => read (part router.shardFor keys own) (owners own) := by
  unfold fragmentReplies
  rw [splits.fragments, List.map_map]
  exact List.map_congr_left fun own member => answers _ _ (unites.clock own (splits.bound own member))

/-- An owner's key is live there as it is in the union. -/
theorem Unites.live? (member : key ∈ part router.shardFor keys own) :
    (owners own).live? time.now key = u.live? time.now key := by
  have mine : router.shardFor key = own := by simpa using (List.mem_filter.mp member).2
  subst mine
  unfold Store.live?
  rw [unites.images key]

end

/-- The counts of one owner, or of several. -/
theorem assemble_counts {count : Nat → Nat} {total : Nat}
    (kind : (plan.reply = .direct ∧ list.length = 1) ∨ plan.reply = .sum list.length)
    (sums : (list.map count).sum = total) (small : (total : Int) ≤ Machine.i64Max) :
    plan.reply.assemble (list.map fun own => Reply.integer (count own : Nat)) =
      .ok (.integer total) := by
  subst sums
  rcases kind with ⟨direct, single⟩ | sum
  · obtain ⟨own, rfl⟩ := List.length_eq_one_iff.mp single
    rw [direct, List.map_singleton, List.map_singleton, List.sum_singleton]
    rfl
  · have summed := ReplyPlan.assemble_sum (list.map count) small
    rwa [List.length_map, List.map_map, ← sum] at summed

/-- **A command that treats its keys one by one**, and is never refused. -/
theorem stepped_parts (read : List Bytes → Store → Reply) (effect : Option Image → Option Image)
    (unites : Unites router configs time owners u)
    (plans : router.planTransactionCommand (split keys) = .ok plan)
    (visits : (split keys).visitKeys = keys)
    (splits : Splits router router.shardFor split keys list plan)
    (answers : ∀ s keys, s.clock = time → ((executeQueued (split keys)).run s).1 = read keys s)
    (acts : ∀ s keys, s.clock = time → ∀ key ∈ keys,
      ((executeQueued (split keys)).run s).2.image? key = effect (s.image? key))
    (free : ∀ keys s, (read keys s).refused = false ∧ (read keys s).isError = false)
    (assembles : plan.reply.assemble (list.map fun own =>
      read (part router.shardFor keys own) (owners own)) = .ok (read keys u)) :
    Stepped router configs time owners u (split keys) plan := by
  have replies := replies_parts unites splits answers
  have whole := answers u keys unites.unionClock
  refine stepped_granted unites plans (fun reply member => ?_) ?_ ?_ (fun _ => ?_) fun key visited => ?_
  · rw [replies] at member
    obtain ⟨own, _, rfl⟩ := List.mem_map.mp member
    exact (free _ _).1
  · rw [replies, assembles, whole]
  · rw [whole]
    exact (free _ _).1
  · rw [whole]
    exact (free _ _).2
  · exact inside_parts unites splits acts key (visits ▸ visited)

theorem run_queued_exists (s : Store) (keys : List Bytes) :
    (executeQueued (.exists keys)).run s =
      (.integer (keys.countP (s.isLive s.clock.now) : Nat), s.purgeAll s.clock.now keys) := by
  show (Reply.integer ((keys.foldlM (existsStep s.clock.now) 0).run s).1,
    ((keys.foldlM (existsStep s.clock.now) 0).run s).2) = _
  rw [run_exists, Nat.zero_add]

theorem run_queued_mGet (s : Store) (keys : List Bytes) :
    (executeQueued (.mGet keys)).run s =
      (.array (keys.map (s.stringReply s.clock.now)), s.purgeAll s.clock.now keys) := by
  show (Reply.array ((keys.foldlM (mGetStep s.clock.now) []).run s).1,
    ((keys.foldlM (mGetStep s.clock.now) []).run s).2) = _
  rw [run_mGet, List.nil_append]

theorem run_queued_del (s : Store) (keys : List Bytes) :
    (executeQueued (.del keys)).run s =
      (.integer ((s.liveKeys s.clock.now keys).card : Nat), s.deleted s.clock.now keys) := by
  show (Reply.integer ((keys.foldlM (delStep s.clock.now) 0).run s).1,
    ((keys.foldlM (delStep s.clock.now) 0).run s).2) = _
  rw [run_del, Nat.zero_add]

theorem splits_exists (plans : router.planTransactionCommand (.exists keys) = .ok plan) :
    ∃ list, Splits router router.shardFor .exists keys list plan ∧
      ((plan.reply = .direct ∧ list.length = 1) ∨ plan.reply = .sum list.length) := by
  cases ShardRouter.plans_of_planTransactionCommand plans with
  | direct bound _ owns => exact ⟨_, splits_direct bound owns, .inl ⟨rfl, rfl⟩⟩
  | «exists» => exact ⟨_, splits_keys false false, .inr (by rw [ShardRouter.splitKeys_eq]; rfl)⟩

theorem splits_del (plans : router.planTransactionCommand (.del keys) = .ok plan) :
    ∃ list, Splits router router.shardFor .del keys list plan ∧
      ((plan.reply = .direct ∧ list.length = 1) ∨ plan.reply = .sum list.length) := by
  cases ShardRouter.plans_of_planTransactionCommand plans with
  | direct bound _ owns => exact ⟨_, splits_direct bound owns, .inl ⟨rfl, rfl⟩⟩
  | del => exact ⟨_, splits_keys true false, .inr (by rw [ShardRouter.splitKeys_eq]; rfl)⟩

/-- The rows of one owner are the reply; those of several are read in the original order. -/
theorem splits_mGet (plans : router.planTransactionCommand (.mGet keys) = .ok plan) :
    ∃ list, Splits router router.shardFor .mGet keys list plan ∧
      ∀ read : Bytes → Reply, (∀ key, ReplyPlan.isBulk (read key) = true) →
        plan.reply.assemble (list.map fun own => .array ((part router.shardFor keys own).map read)) =
          .ok (.array (keys.map read)) := by
  cases ShardRouter.plans_of_planTransactionCommand plans with
  | direct bound _ owns =>
    have whole : part router.shardFor keys _ = keys :=
      List.filter_eq_self.mpr fun key member => by simpa using owns key member
    refine ⟨_, splits_direct bound owns, fun read _ => ?_⟩
    rw [List.map_singleton, whole]
    rfl
  | mGet =>
    refine ⟨_, splits_keys false true, fun read bulks => ?_⟩
    rw [ShardRouter.splitKeys_eq]
    exact ReplyPlan.assemble_orderedBulk (router.covers_ownersOf keys) read bulks

section

variable (unites : Unites router configs time owners u)

include unites

theorem stepped_exists (plans : router.planTransactionCommand (.exists keys) = .ok plan)
    (few : (keys.length : Int) ≤ Machine.i64Max) :
    Stepped router configs time owners u (.exists keys) plan := by
  obtain ⟨list, splits, kind⟩ := splits_exists plans
  refine stepped_parts (fun keys s => .integer (keys.countP (s.isLive time.now) : Nat))
    (Option.filter fun image => !image.expired time.now) unites plans rfl splits
    (fun s keys clock => ?_) (fun s keys clock key member => ?_) (fun _ _ => ⟨rfl, rfl⟩)
    (assemble_counts kind ?_ ?_)
  · rw [run_queued_exists, clock]
  · rw [run_queued_exists, clock, image?_purgeAll, if_pos member]
    rfl
  · rw [← countP_parts splits.covers]
    refine congrArg List.sum (List.map_congr_left fun own _ => List.countP_congr fun key member => ?_)
    rw [isLive, isLive, unites.live? member]
  · have bound : keys.countP (u.isLive time.now) ≤ keys.length := List.countP_le_length
    omega

theorem card_liveKeys_parts (covers : Covers router.shardFor keys list) :
    (list.map fun own => ((owners own).liveKeys time.now (part router.shardFor keys own)).card).sum =
      (u.liveKeys time.now keys).card := by
  have fibres : (u.liveKeys time.now keys).card = list.toFinset.sum fun own =>
      ((u.liveKeys time.now keys).filter fun key => router.shardFor key = own).card := by
    refine Finset.card_eq_sum_card_fiberwise fun key member => ?_
    have listed := List.mem_toFinset.mp (Finset.mem_filter.mp member).1
    exact List.mem_toFinset.mpr (covers.member key listed)
  rw [fibres, List.sum_toFinset _ covers.nodup]
  refine congrArg List.sum (List.map_congr_left fun own _ => congrArg Finset.card ?_)
  ext key
  simp only [liveKeys, Finset.mem_filter, List.mem_toFinset]
  constructor
  · rintro ⟨inside, live⟩
    obtain ⟨listed, mine⟩ := List.mem_filter.mp inside
    rw [isLive, unites.live? inside] at live
    exact ⟨⟨listed, live⟩, by simpa using mine⟩
  · rintro ⟨⟨listed, live⟩, mine⟩
    have inside : key ∈ part router.shardFor keys own := List.mem_filter.mpr ⟨listed, by simpa using mine⟩
    refine ⟨inside, ?_⟩
    rw [isLive, unites.live? inside]
    exact live

theorem stepped_del (plans : router.planTransactionCommand (.del keys) = .ok plan)
    (few : (keys.length : Int) ≤ Machine.i64Max) :
    Stepped router configs time owners u (.del keys) plan := by
  obtain ⟨list, splits, kind⟩ := splits_del plans
  refine stepped_parts (fun keys s => .integer ((s.liveKeys time.now keys).card : Nat)) (fun _ => none)
    unites plans rfl splits (fun s keys clock => ?_) (fun s keys clock key member => ?_)
    (fun _ _ => ⟨rfl, rfl⟩) (assemble_counts kind (card_liveKeys_parts unites splits.covers) ?_)
  · rw [run_queued_del, clock]
  · rw [run_queued_del, image?_deleted, if_pos member]
  · have bound : (u.liveKeys time.now keys).card ≤ keys.length :=
      (Finset.card_filter_le _ _).trans (List.toFinset_card_le keys)
    omega

end

/-- A command that no quota refuses is executed on the union. -/
theorem unionStep_of_splits {result : Store → List Bytes → Reply × Store}
    (plans : router.planTransactionCommand (split keys) = .ok plan)
    (splits : Splits router router.shardFor split keys list plan)
    (runs : ∀ s keys, (executeQueued (split keys)).run s = result s keys)
    (free : ∀ s keys, (result s keys).1.refused = false) (state : Store × List Reply) :
    unionStep router configs state (split keys) =
      ((result state.1 keys).2, state.2 ++ [(result state.1 keys).1]) := by
  have granted : refuses router configs state.1 plan = false := by
    unfold refuses
    rw [splits.fragments, List.any_map]
    exact List.any_eq_false.mpr fun own _ => by simp [runs, free]
  unfold unionStep
  rw [plans]
  dsimp only
  rw [granted, ← runs]
  rfl

theorem stepped_mGet (unites : Unites router configs time owners u)
    (plans : router.planTransactionCommand (.mGet keys) = .ok plan) :
    Stepped router configs time owners u (.mGet keys) plan := by
  obtain ⟨list, splits, assembles⟩ := splits_mGet plans
  refine stepped_parts (fun keys s => .array (keys.map (s.stringReply time.now)))
    (Option.filter fun image => !image.expired time.now) unites plans rfl splits
    (fun s keys clock => ?_) (fun s keys clock key member => ?_) (fun _ _ => ⟨rfl, rfl⟩) ?_
  · rw [run_queued_mGet, clock]
  · rw [run_queued_mGet, clock, image?_purgeAll, if_pos member]
    rfl
  · rw [← assembles (u.stringReply time.now) fun _ => rfl]
    refine congrArg _ (List.map_congr_left fun own _ => congrArg Reply.array ?_)
    exact List.map_congr_left fun key member => by rw [stringReply, stringReply, unites.live? member]

end Parts

/-! ### MSET -/

section Mset

variable {entries : List (Bytes × Bytes)}

theorem msetCharge_of_small {pairs : List (Bytes × Bytes)} {base : Nat}
    (small : base + pairsSize pairs < Machine.word) :
    pairs.foldlM msetCharge base = some (base + pairsSize pairs) := by
  induction pairs generalizing base with
  | nil => rfl
  | cons pair others ih =>
    have split : pairsSize (pair :: others) =
        entrySize pair.1 (.string pair.2) + pairsSize others := rfl
    have bytes : entryBytes pair.1 (.string pair.2) = some (entrySize pair.1 (.string pair.2)) :=
      entryBytes_eq_some.mpr ⟨rfl, by omega, rfl⟩
    have sum : Machine.checkedAdd base (entrySize pair.1 (.string pair.2)) =
        some (base + entrySize pair.1 (.string pair.2)) :=
      Machine.checkedAdd_eq_some.mpr ⟨by omega, rfl⟩
    have head : msetCharge base pair = some (base + entrySize pair.1 (.string pair.2)) := by
      rw [msetCharge, bytes, Option.bind_some, sum]
    rw [List.foldlM_cons, head]
    exact (ih (by omega)).trans (by rw [split, Nat.add_assoc])

/-- **The test of MSET is exact.** -/
theorem msetAdmits_iff {s : Store} (holds : Sound rest s) (pairs : OrdMap Bytes Bytes) :
    s.msetAdmits pairs = true ↔
      s.usedBytes + pairsSize pairs.entries ≤ s.config.maxDatasetBytes + heldAll s pairs.keys := by
  have covered := (foldl_removed_sound pairs.nodup_keys holds).2
  have quota := holds.quota
  have word := quota_lt_word s.config
  unfold msetAdmits
  rw [Option.any_eq_true]
  constructor
  · rintro ⟨usage, sum, small⟩
    have total := msetCharge_sum sum
    rw [Bool.or_eq_true, decide_eq_true_eq, decide_eq_true_eq] at small
    omega
  · intro fits
    refine ⟨_, msetCharge_of_small (by omega), ?_⟩
    rw [Bool.or_eq_true, decide_eq_true_eq]
    exact .inl (by omega)

/-- The pairs of an owner. -/
abbrev ownPairs (router : ShardRouter) (entries : List (Bytes × Bytes)) (own : Nat) :
    OrdMap Bytes Bytes :=
  OrdMap.ofList (part (fun entry => router.shardFor entry.1) entries own)

/-- The pairs of an owner are its part of all pairs. -/
theorem ofList_part (own : Nat) :
    ownPairs router entries own =
      (OrdMap.ofList entries).filter fun key _ => decide (router.shardFor key = own) :=
  OrdMap.ofList_filter (fun key => decide (router.shardFor key = own)) entries

theorem entries_part (own : Nat) :
    (ownPairs router entries own).entries =
      part (fun entry => router.shardFor entry.1) (OrdMap.ofList entries).entries own := by
  rw [ofList_part]
  rfl

theorem keys_part (own : Nat) :
    (ownPairs router entries own).keys = part router.shardFor (OrdMap.ofList entries).keys own := by
  show (OrdMap.entries _).map Prod.fst = _
  rw [entries_part]
  show _ = part router.shardFor ((OrdMap.ofList entries).entries.map Prod.fst) own
  unfold part
  rw [List.filter_map]
  rfl

/-- The owner has room for its pairs. -/
def admitsPart (router : ShardRouter) (now : Nat) (owners : Nat → Store) (entries : List (Bytes × Bytes))
    (own : Nat) : Bool :=
  ((owners own).purgeAll now (ownPairs router entries own).keys).msetAdmits (ownPairs router entries own)

theorem run_queued_mSet {s : Store} (holds : Sound rest s) (pairs : List (Bytes × Bytes)) :
    (executeQueued (.mSet pairs)).run s =
      if (s.purgeAll s.clock.now (OrdMap.ofList pairs).keys).msetAdmits (OrdMap.ofList pairs) then
        (.ok, (s.purgeAll s.clock.now (OrdMap.ofList pairs).keys).msetStore (OrdMap.ofList pairs))
      else (.error .outOfMemory, s.purgeAll s.clock.now (OrdMap.ofList pairs).keys) :=
  run_mset holds pairs s.clock.now

variable (unites : Unites router configs time owners u)

include unites

/-- The pairs fit the union if every owner's pairs fit. -/
theorem msetAdmits_union
    (fits : ∀ own < router.count, admitsPart router time.now owners entries own = true) :
    (u.purgeAll time.now (OrdMap.ofList entries).keys).msetAdmits (OrdMap.ofList entries) = true := by
  have parts : ∀ shard key, key ∈ (ownPairs router entries shard).keys ↔
        key ∈ (OrdMap.ofList entries).keys ∧ router.shardFor key = shard := by
    intro shard key
    rw [keys_part, part, List.mem_filter, decide_eq_true_eq]
  have purged := unites.purgeAll parts time.now
  have ranges : Covers router.shardFor (OrdMap.ofList entries).keys (List.range router.count) :=
    ⟨List.nodup_range, fun key _ => List.mem_range.mpr (router.shardFor_lt key)⟩
  have pairRanges : Covers (fun entry => router.shardFor entry.1) (OrdMap.ofList entries).entries
      (List.range router.count) :=
    ⟨List.nodup_range, fun entry _ => List.mem_range.mpr (router.shardFor_lt entry.1)⟩
  rw [msetAdmits_iff purged.union]
  have each : ∀ own ∈ List.range router.count,
      ((owners own).purgeAll time.now (ownPairs router entries own).keys).usedBytes +
        pairsSize (part (fun entry => router.shardFor entry.1) (OrdMap.ofList entries).entries own) ≤
      (configs own).maxDatasetBytes +
        heldAll (u.purgeAll time.now (OrdMap.ofList entries).keys)
          (part router.shardFor (OrdMap.ofList entries).keys own) := by
    intro own member
    have bound := List.mem_range.mp member
    have admitted := (msetAdmits_iff (purged.sound own bound) _).mp (fits own bound)
    rw [entries_part, purged.config own bound] at admitted
    refine admitted.trans (Nat.add_le_add_left (Nat.le_of_eq ?_) _)
    rw [keys_part]
    refine heldAll_congr fun key inside => ?_
    have mine : router.shardFor key = own := by simpa using (List.mem_filter.mp inside).2
    subst mine
    rw [← keys_part]
    exact purged.images key
  have total := List.sum_le_sum each
  rw [List.sum_map_add, List.sum_map_add] at total
  have sizes := sum_parts pairRanges fun pair => entrySize pair.1 (.string pair.2)
  have held := sum_parts ranges (u.purgeAll time.now (OrdMap.ofList entries).keys).held
  have used := purged.used
  have room := purged.room
  unfold pairsSize heldAll at *
  omega

theorem admitsPart_of_notMem (bound : own < router.count)
    (covers : Covers (fun entry => router.shardFor entry.1) entries list) (absent : own ∉ list) :
    admitsPart router time.now owners entries own = true := by
  have empty : part (fun entry => router.shardFor entry.1) entries own = [] := by
    refine List.filter_eq_nil_iff.mpr fun entry member mine => absent ?_
    exact (of_decide_eq_true mine) ▸ covers.member entry member
  unfold admitsPart ownPairs
  rw [empty]
  have sound : Sound 0 ((owners own).purgeAll time.now (OrdMap.ofList ([] : List (Bytes × Bytes))).keys) :=
    unites.sound own bound
  exact (msetAdmits_iff sound _).mpr (Nat.add_le_add_right sound.quota 0)

theorem stepped_mSet (plans : router.planTransactionCommand (.mSet entries) = .ok plan) :
    Stepped router configs time owners u (.mSet entries) plan := by
  obtain ⟨list, splits, kind⟩ : ∃ list,
      Splits router (fun entry => router.shardFor entry.1) .mSet entries list plan ∧
      ((plan.reply = .direct ∧ list.length = 1) ∨ plan.reply = .allOk list.length) := by
    cases ShardRouter.plans_of_planTransactionCommand plans with
    | direct bound _ owns =>
      exact ⟨_, splits_direct bound fun entry member => owns _ (List.mem_map_of_mem member),
        .inl ⟨rfl, rfl⟩⟩
    | mSet =>
      refine ⟨_, ⟨router.covers_pairOwners entries, fun _ => ShardRouter.pairOwners_lt, ?_⟩, .inr ?_⟩
      all_goals rw [ShardRouter.splitMset_eq]
  have run : ∀ own < router.count, (executeQueued
      (.mSet (part (fun entry => router.shardFor entry.1) entries own))).run (owners own) =
        if admitsPart router time.now owners entries own then
          (.ok, ((owners own).purgeAll time.now (ownPairs router entries own).keys).msetStore
            (ownPairs router entries own))
        else (.error .outOfMemory,
          (owners own).purgeAll time.now (ownPairs router entries own).keys) := by
    intro own bound
    rw [run_queued_mSet (unites.sound own bound), unites.clock own bound]
    rfl
  have replies : fragmentReplies owners plan = list.map fun own =>
      if admitsPart router time.now owners entries own then .ok else .error .outOfMemory := by
    unfold fragmentReplies
    rw [splits.fragments, List.map_map]
    refine List.map_congr_left fun own member => ?_
    show ((executeQueued _).run (owners own)).1 = _
    rw [run own (splits.bound own member)]
    split_ifs <;> rfl
  have keyed : ∀ key ∈ (Command.mSet entries).visitKeys, router.shardFor key ∈ list ∧
      key ∈ (OrdMap.ofList entries).keys := by
    intro key visited
    obtain ⟨entry, member, rfl⟩ := List.mem_map.mp visited
    exact ⟨splits.covers.member entry member,
      OrdMap.mem_keys.mpr (OrdMap.mem_ofList.mpr (List.mem_map_of_mem member))⟩
  by_cases fits : ∀ own ∈ list, admitsPart router time.now owners entries own = true
  · have union : (executeQueued (.mSet entries)).run u =
        (.ok, (u.purgeAll time.now (OrdMap.ofList entries).keys).msetStore (OrdMap.ofList entries)) := by
      rw [run_queued_mSet unites.union, unites.unionClock, if_pos]
      refine msetAdmits_union unites fun own bound => ?_
      by_cases listed : own ∈ list
      · exact fits own listed
      · exact admitsPart_of_notMem unites bound splits.covers listed
    have fine : ∀ reply ∈ fragmentReplies owners plan, reply = .ok := by
      intro reply member
      rw [replies] at member
      obtain ⟨own, listed, rfl⟩ := List.mem_map.mp member
      exact if_pos (fits own listed)
    refine stepped_granted unites plans (fun reply member => ?_) ?_ ?_ (fun _ => ?_) fun key visited => ?_
    · rw [fine reply member]
      rfl
    · rw [union]
      rcases kind with ⟨direct, single⟩ | joint
      · obtain ⟨own, rfl⟩ := List.length_eq_one_iff.mp single
        rw [direct, replies, List.map_singleton, if_pos (fits own (List.mem_singleton_self own))]
        rfl
      · rw [joint, ReplyPlan.assemble, if_pos (by rw [replies, List.length_map])]
        exact ReplyPlan.assembleOk_all _ fine
    · rw [union]
      rfl
    · rw [union]
      rfl
    · obtain ⟨listed, present⟩ := keyed key visited
      obtain ⟨value, found⟩ := OrdMap.mem_iff.mp (OrdMap.mem_keys.mp present)
      rw [splits.fragments, accepted_map, if_pos listed, run _ (router.shardFor_lt key),
        if_pos (fits _ listed), union, image?_msetStore, image?_msetStore, ofList_part,
        OrdMap.get?_filter, found]
      simp
  · obtain ⟨own, listed, full⟩ : ∃ own ∈ list, admitsPart router time.now owners entries own = false := by
      simpa using fits
    have refused : .error .outOfMemory ∈ fragmentReplies owners plan := by
      rw [replies]
      exact List.mem_map.mpr ⟨own, listed, by rw [full]; rfl⟩
    have answers : ∀ reply ∈ fragmentReplies owners plan, reply = .ok ∨ reply = .error .outOfMemory := by
      intro reply member
      rw [replies] at member
      obtain ⟨other, _, rfl⟩ := List.mem_map.mp member
      split_ifs
      · exact .inl rfl
      · exact .inr rfl
    refine stepped_refused unites plans refused ?_ fun single key visited => ?_
    · rcases kind with ⟨direct, single⟩ | joint
      · obtain ⟨other, rfl⟩ := List.length_eq_one_iff.mp single
        obtain rfl := List.mem_singleton.mp listed
        rw [direct, replies, List.map_singleton, full]
        rfl
      · rw [joint, ReplyPlan.assemble, if_pos (by rw [replies, List.length_map])]
        exact ReplyPlan.assembleOk_refused _ answers refused
    · obtain ⟨here, present⟩ := keyed key visited
      rw [splits.fragments, List.length_map] at single
      have mine : router.shardFor key = own := by
        obtain ⟨only, rfl⟩ := List.length_eq_one_iff.mp
          (Nat.le_antisymm single (List.length_pos_of_mem listed))
        rw [List.mem_singleton.mp listed, List.mem_singleton.mp here]
      subst mine
      have own_key : key ∈ (ownPairs router entries (router.shardFor key)).keys := by
        rw [keys_part]
        exact List.mem_filter.mpr ⟨present, by simp⟩
      rw [splits.fragments, accepted_map, if_pos here, run _ (router.shardFor_lt key), full,
        if_neg (by simp), image?_purgeAll, if_pos own_key, Store.live?, unites.images key]
      rfl

end Mset

/-! ### The queue -/

/-- A dataset command that the planner accepts; no list of keys is longer than an `i64` counts. -/
structure Plannable (router : ShardRouter) (command : Command) : Prop where
  ordinary : command.isMemory = false
  plain : Coordinator.connectionOnly command = false
  planned : ∃ plan, router.planTransactionCommand command = .ok plan
  few : (command.visitKeys.length : Int) ≤ Machine.i64Max

/-- **One planned command.** -/
theorem unites_step (unites : Unites router configs time owners u)
    (plannable : Plannable router command)
    (plans : router.planTransactionCommand command = .ok plan) :
    Stepped router configs time owners u command plan := by
  obtain ⟨ordinary, plain, _, few⟩ := plannable
  cases command with
  | memory => cases ordinary
  | info | subscribe | unsubscribe | publish | multi | exec | discard | watch => cases plain
  | mGet keys => exact stepped_mGet unites plans
  | «exists» keys => exact stepped_exists unites plans few
  | del keys => exact stepped_del unites plans few
  | mSet entries => exact stepped_mSet unites plans
  | ping message =>
    cases ShardRouter.plans_of_planTransactionCommand plans
    cases message with
    | none => exact stepped_keyless .pong unites rfl rfl rfl plans rfl ⟨_, rfl⟩
    | some message =>
      exact stepped_keyless (.bulk (some message)) unites rfl rfl rfl plans rfl ⟨_, rfl⟩
  | echo message =>
    cases ShardRouter.plans_of_planTransactionCommand plans
    exact stepped_keyless (.bulk (some message)) unites rfl rfl rfl plans rfl ⟨_, rfl⟩
  | unwatch =>
    cases ShardRouter.plans_of_planTransactionCommand plans
    exact stepped_keyless .ok unites rfl rfl rfl plans rfl ⟨_, rfl⟩
  | _ => exact stepped_onKey unites rfl plans

/-- **A whole queue**, by induction over its last command. -/
theorem unites_queue (unites : Unites router configs time owners u) {commands : List Command}
    (plannable : ∀ command ∈ commands, Plannable router command) :
    ∃ owners, Unites router configs time owners (unionRun router configs u commands).1 := by
  induction commands using List.reverseRecOn with
  | nil => exact ⟨owners, unites⟩
  | append_singleton commands command ih =>
    obtain ⟨before, united⟩ := ih fun other member => plannable other (List.mem_append_left _ member)
    have last := plannable command (by simp)
    obtain ⟨plan, plans⟩ := last.planned
    obtain ⟨reply, v, _, step, _, after⟩ := unites_step united last plans
    have run : unionRun router configs u (commands ++ [command]) =
        (v, (unionRun router configs u commands).2 ++ [reply]) := by
      rw [unionRun_append]
      exact step _
    rw [run]
    exact ⟨_, after⟩

end Sider
