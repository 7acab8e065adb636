/-
**The owners' stores as parts of one store.**

A queue over several owners is meant to act like a queue on one store that holds the union of their
entries. `unionStep` is one command of that reference: the command is refused if some owner's quota
refuses its part, and otherwise it is executed on the union. `ownersStep` is what the owners do with
the fragments of the command.

`Unites` says that the owners hold the parts of the union. It is kept by every planned command, and the
replies are the same (`unites_step`); so they are for a whole queue (`unites_queue`).
-/

import Sider.Storage.Coordinator
import Sider.Storage.MultiKey
import Sider.Storage.Planning

namespace Sider

open Store Grouping

variable {own : Nat} {command : Command} {plan : CommandPlan} {fragments : List Fragment}
  {reply : Reply} {list : List Nat}

/-! ### The reference -/

/-- The quota refused the command. -/
def Reply.refused : Reply → Bool
  | .error .outOfMemory => true
  | _ => false

theorem Reply.refused_iff : reply.refused = true ↔ reply = .error .outOfMemory := by
  unfold Reply.refused
  split
  · exact iff_of_true rfl rfl
  · rename_i other
    exact iff_of_false Bool.false_ne_true other

theorem Reply.refused_eq_false (granted : reply ≠ .error .outOfMemory) : reply.refused = false :=
  Bool.eq_false_iff.mpr fun refused => granted (Reply.refused_iff.mp refused)

namespace Store

/-- The part of one owner: the store without the keys of the others, under the owner's quota. -/
def share (router : ShardRouter) (configs : Nat → StoreConfig) (u : Store) (own : Nat) : Store :=
  { (u.values.keys.filter fun key => router.shardFor key ≠ own).foldl removed u with
    config := configs own }

end Store

section Reference

variable (router : ShardRouter) (configs : Nat → StoreConfig)

/-- Some owner's quota refuses its part of the command. -/
def refuses (u : Store) (plan : CommandPlan) : Bool :=
  plan.fragments.any fun fragment =>
    ((executeQueued fragment.command).run (u.share router configs fragment.owner)).1.refused

/-- One command on the union. A refused command of one owner still drops the keys that have elapsed. -/
def unionStep (state : Store × List Reply) (command : Command) : Store × List Reply :=
  match router.planTransactionCommand command with
  | .error _ => state
  | .ok plan =>
    if refuses router configs state.1 plan then
      (if 1 < plan.fragments.length then state.1
        else state.1.purgeAll state.1.clock.now command.visitKeys, state.2 ++ [.error .outOfMemory])
    else sequentialStep state command

/-- A queue on the union. -/
def unionRun (u : Store) (commands : List Command) : Store × List Reply :=
  commands.foldl (unionStep router configs) (u, [])

theorem unionStep_replies (u : Store) (replies : List Reply) (command : Command) :
    unionStep router configs (u, replies) command =
      ((unionStep router configs (u, []) command).1,
        replies ++ (unionStep router configs (u, []) command).2) := by
  unfold unionStep
  cases router.planTransactionCommand command with
  | error error => simp
  | ok plan =>
    dsimp only
    split_ifs <;> rfl

theorem foldl_unionStep (u : Store) (replies : List Reply) (commands : List Command) :
    commands.foldl (unionStep router configs) (u, replies) =
      ((unionRun router configs u commands).1, replies ++ (unionRun router configs u commands).2) := by
  unfold unionRun
  induction commands generalizing u replies with
  | nil => simp
  | cons command rest ih =>
    rw [List.foldl_cons, List.foldl_cons, unionStep_replies, ih, ih _ (unionStep _ _ (u, []) command).2,
      List.append_assoc]

theorem unionRun_append (u : Store) (commands : List Command) (command : Command) :
    unionRun router configs u (commands ++ [command]) =
      unionStep router configs (unionRun router configs u commands) command := by
  unfold unionRun
  rw [List.foldl_append]
  rfl

end Reference

/-! ### The owners -/

/-- What the owners answer to the fragments of a command. -/
def fragmentReplies (owners : Nat → Store) (plan : CommandPlan) : List Reply :=
  plan.fragments.map fun fragment => ((executeQueued fragment.command).run (owners fragment.owner)).1

/-- Every owner with a fragment keeps its effect. -/
def accepted (owners : Nat → Store) (fragments : List Fragment) (own : Nat) : Store :=
  match fragments.find? (·.owner = own) with
  | some fragment => ((executeQueued fragment.command).run (owners own)).2
  | none => owners own

/-- A refused command of several owners is dropped by all of them. -/
def ownersStep (owners : Nat → Store) (plan : CommandPlan) (reply : Reply) : Nat → Store :=
  if 1 < plan.fragments.length && reply.isError then owners else accepted owners plan.fragments

theorem accepted_map (owners : Nat → Store) (command : Nat → Command) (own : Nat) :
    accepted owners (list.map fun own => ⟨own, command own⟩) own =
      if own ∈ list then ((executeQueued (command own)).run (owners own)).2 else owners own := by
  unfold accepted
  rw [List.find?_map]
  split_ifs with member
  · cases found : list.find? ((fun fragment : Fragment => decide (fragment.owner = own)) ∘
        fun own => ⟨own, command own⟩) with
    | none =>
      have missing := List.find?_eq_none.mp found own member
      simp at missing
    | some other =>
      have same : other = own := by simpa using List.find?_some found
      subst same
      rfl
  · cases found : list.find? ((fun fragment : Fragment => decide (fragment.owner = own)) ∘
        fun own => ⟨own, command own⟩) with
    | none => rfl
    | some other =>
      have same : other = own := by simpa using List.find?_some found
      exact absurd (List.mem_of_find?_eq_some found) (same ▸ member)

/-! ### Parts of the union -/

/-- The owners hold the parts of `u`, all at one time, and `u` has room for what their quotas admit. -/
structure Unites (router : ShardRouter) (configs : Nat → StoreConfig) (time : Clock)
    (owners : Nat → Store) (u : Store) : Prop where
  sound : ∀ own < router.count, Sound 0 (owners own)
  clock : ∀ own < router.count, (owners own).clock = time
  config : ∀ own < router.count, (owners own).config = configs own
  images : ∀ key, (owners (router.shardFor key)).image? key = u.image? key
  foreign : ∀ own < router.count, ∀ key, router.shardFor key ≠ own → (owners own).image? key = none
  union : Sound 0 u
  unionClock : u.clock = time
  room : ((List.range router.count).map fun own => (configs own).maxDatasetBytes).sum ≤
    u.config.maxDatasetBytes

section Unites

variable {router : ShardRouter} {configs : Nat → StoreConfig} {time : Clock} {owners : Nat → Store}
  {u : Store}

theorem charged_congr {s t : Store} (same : ∀ key, s.image? key = t.image? key) :
    s.charged = t.charged := by
  have covers : ∀ key, key ∈ t.values → key ∈ s.values.keys := by
    intro key member
    obtain ⟨entry, found⟩ := OrdMap.mem_iff.mp member
    refine OrdMap.mem_keys.mpr (OrdMap.mem_iff.mpr ?_)
    obtain ⟨other, hit, _⟩ := image?_eq_some.mp
      ((same key).trans (image?_eq_some.mpr ⟨entry, found, rfl⟩))
    exact ⟨other, hit⟩
  rw [charged_eq_heldAll s.values.nodup_keys fun _ => OrdMap.mem_keys.mpr,
    charged_eq_heldAll s.values.nodup_keys covers]
  exact heldAll_congr fun key _ => same key

theorem image?_share (router : ShardRouter) (configs : Nat → StoreConfig) (u : Store) (own : Nat)
    (key : Bytes) : (u.share router configs own).image? key =
      if router.shardFor key = own then u.image? key else none := by
  show ((u.values.keys.filter fun key => router.shardFor key ≠ own).foldl removed u).image? key = _
  rw [image?_foldl_removed]
  by_cases mine : router.shardFor key = own
  · rw [if_pos mine, if_neg (by simp [mine])]
  · split_ifs with listed
    · rfl
    · cases found : u.values.get? key with
      | none => exact image?_eq_none.mpr found
      | some entry =>
        refine absurd (List.mem_filter.mpr ⟨OrdMap.mem_keys.mpr (OrdMap.mem_iff.mpr ⟨entry, found⟩), ?_⟩)
          listed
        simpa using mine

theorem Unites.image?_owner (unites : Unites router configs time owners u)
    (bound : own < router.count) (key : Bytes) :
    (owners own).image? key = (u.share router configs own).image? key := by
  rw [image?_share]
  split_ifs with mine
  · exact mine ▸ unites.images key
  · exact unites.foreign own bound key mine

/-- The bytes of the union are those of the owners together. -/
theorem Unites.used (unites : Unites router configs time owners u) :
    u.usedBytes = ((List.range router.count).map fun own => (owners own).usedBytes).sum := by
  have covers : Covers router.shardFor u.values.keys (List.range router.count) :=
    ⟨List.nodup_range, fun key _ => List.mem_range.mpr (router.shardFor_lt key)⟩
  have whole : u.usedBytes = heldAll u u.values.keys := by
    rw [unites.union.used, Nat.zero_add,
      charged_eq_heldAll u.values.nodup_keys fun _ => OrdMap.mem_keys.mpr]
  rw [whole, heldAll, ← sum_parts covers u.held]
  refine congrArg List.sum (List.map_congr_left fun own member => ?_)
  have bound := List.mem_range.mp member
  have covered : ∀ key, key ∈ (owners own).values → key ∈ part router.shardFor u.values.keys own := by
    intro key present
    obtain ⟨entry, found⟩ := OrdMap.mem_iff.mp present
    have image := image?_eq_some.mpr ⟨entry, found, rfl⟩
    rw [unites.image?_owner bound, image?_share] at image
    split_ifs at image with mine
    obtain ⟨twin, hit, _⟩ := image?_eq_some.mp image
    exact List.mem_filter.mpr
      ⟨OrdMap.mem_keys.mpr (OrdMap.mem_iff.mpr ⟨twin, hit⟩), by simpa using mine⟩
  rw [(unites.sound own bound).used, Nat.zero_add,
    charged_eq_heldAll (u.values.nodup_keys.filter _) covered]
  refine (heldAll_congr fun key inside => ?_).symm
  have mine : router.shardFor key = own := by simpa using (List.mem_filter.mp inside).2
  exact mine ▸ unites.images key

theorem sum_slack {f g : Nat → Nat} (le : ∀ other ∈ list, f other ≤ g other) (member : own ∈ list) :
    (list.map f).sum + g own ≤ (list.map g).sum + f own := by
  have others : ((list.erase own).map f).sum ≤ ((list.erase own).map g).sum :=
    List.sum_le_sum fun other inside => le other (List.mem_of_mem_erase inside)
  rw [← List.sum_map_erase f member, ← List.sum_map_erase g member]
  omega

section

variable (unites : Unites router configs time owners u)

include unites

/-- What an owner's quota leaves free, the union leaves free. -/
theorem Unites.slack (bound : own < router.count) :
    u.usedBytes + (configs own).maxDatasetBytes ≤ u.config.maxDatasetBytes + (owners own).usedBytes := by
  have le : ∀ other ∈ List.range router.count,
      (owners other).usedBytes ≤ (configs other).maxDatasetBytes := by
    intro other member
    have inside := List.mem_range.mp member
    rw [← unites.config other inside]
    exact (unites.sound other inside).quota
  have sums := sum_slack le (List.mem_range.mpr bound)
  have used := unites.used
  have room := unites.room
  omega

/-- The owner's part of the union is charged like the owner. -/
theorem Unites.share_sound (bound : own < router.count) :
    Sound 0 (u.share router configs own) ∧
      (u.share router configs own).usedBytes = (owners own).usedBytes := by
  have cleared := (foldl_removed_sound
    (u.values.nodup_keys.filter fun key => decide (router.shardFor key ≠ own)) unites.union).1
  have same : (u.share router configs own).charged = (owners own).charged :=
    charged_congr fun key => (unites.image?_owner bound key).symm
  have used : (u.share router configs own).usedBytes = (owners own).usedBytes := by
    rw [(unites.sound own bound).used, ← same]
    exact cleared.used
  refine ⟨⟨cleared.used, ?_, cleared.good, cleared.stamped, cleared.sound⟩, used⟩
  rw [used]
  show _ ≤ (configs own).maxDatasetBytes
  rw [← unites.config own bound]
  exact (unites.sound own bound).quota

theorem Unites.share_clock (own : Nat) : (u.share router configs own).clock = time := by
  show ((u.values.keys.filter fun key => router.shardFor key ≠ own).foldl removed u).clock = time
  have kept : ∀ (keys : List Bytes) (s : Store), (keys.foldl removed s).clock = s.clock := by
    intro keys s
    induction keys generalizing s with
    | nil => rfl
    | cons key others ih => rw [List.foldl_cons, ih, removed_clock]
  rw [kept, unites.unionClock]

/-- An owner answers as its part of the union would. -/
theorem Unites.reply_owner (bound : own < router.count) (command : Command) :
    ((executeQueued command).run (owners own)).1 =
      ((executeQueued command).run (u.share router configs own)).1 := by
  obtain ⟨sound, used⟩ := unites.share_sound bound
  refine (mirror_run (executeQueued_local command) (unites.sound own bound) sound
    (fun key _ => unites.image?_owner bound key) ?_ (unites.config own bound) used.symm).1
  rw [unites.clock own bound, unites.share_clock]

end

/-! ### One command -/

theorem executeQueued_framed (command : Command) (s : Store) :
    Framed command.visitKeys s ((executeQueued command).run s).2 :=
  (executeQueued_local command).keeps (framed_kept _ _ s) s (framed_self _ s)

theorem image?_outside {keys : List Bytes} {s t : Store} (framed : Framed keys s t) {key : Bytes}
    (other : key ∉ keys) : t.image? key = s.image? key :=
  congrArg (Option.map Entry.toImage) (framed.outside key other)

/-- An owner's fragment reaches only keys of the command, all of them the owner's. -/
theorem accepted_cases (planned : router.WellPlanned command fragments) (owners : Nat → Store)
    (own : Nat) :
    accepted owners fragments own = owners own ∨
      ∃ fragment ∈ fragments, fragment.owner = own ∧
        accepted owners fragments own = ((executeQueued fragment.command).run (owners own)).2 ∧
        (∀ key ∈ fragment.command.visitKeys, router.shardFor key = own) ∧
        ∀ key ∈ fragment.command.visitKeys, key ∈ command.visitKeys := by
  unfold accepted
  cases found : fragments.find? (·.owner = own) with
  | none => exact .inl rfl
  | some fragment =>
    have member := List.mem_of_find?_eq_some found
    have mine : fragment.owner = own := by simpa using List.find?_some found
    exact .inr ⟨fragment, member, mine, rfl, fun key visited => mine ▸ planned.owns _ member key visited,
      planned.keys _ member⟩

variable (unites : Unites router configs time owners u)

include unites

/-- The owners keep their effects and the union its own; they must agree at the keys of the command. -/
theorem unites_accepted {v : Store} (planned : router.WellPlanned command fragments)
    (framed : Framed command.visitKeys u v) (sound : Sound 0 v) (inside : ∀ key ∈ command.visitKeys,
      (accepted owners fragments (router.shardFor key)).image? key = v.image? key) :
    Unites router configs time (accepted owners fragments) v := by
  have clock := framed.clock.trans unites.unionClock
  have config := framed.config
  refine ⟨fun own bound => ?_, fun own bound => ?_, fun own bound => ?_, fun key => ?_,
    fun own bound key other => ?_, sound, clock, config ▸ unites.room⟩
  · rcases accepted_cases planned owners own with same | ⟨fragment, _, _, same, _⟩ <;> rw [same]
    · exact unites.sound own bound
    · exact executeQueued_sound _ _ (unites.sound own bound)
  · rcases accepted_cases planned owners own with same | ⟨fragment, _, _, same, _⟩ <;> rw [same]
    · exact unites.clock own bound
    · exact (executeQueued_framed _ _).clock.trans (unites.clock own bound)
  · rcases accepted_cases planned owners own with same | ⟨fragment, _, _, same, _⟩ <;> rw [same]
    · exact unites.config own bound
    · exact (executeQueued_framed _ _).config.trans (unites.config own bound)
  · by_cases visited : key ∈ command.visitKeys
    · exact inside key visited
    · rw [image?_outside framed visited, ← unites.images key]
      rcases accepted_cases planned owners (router.shardFor key) with
        same | ⟨fragment, _, _, same, _, keys⟩ <;> rw [same]
      exact image?_outside (executeQueued_framed _ _) fun own => visited (keys key own)
  · rcases accepted_cases planned owners own with same | ⟨fragment, _, _, same, owns, _⟩ <;> rw [same]
    · exact unites.foreign own bound key other
    · rw [image?_outside (executeQueued_framed _ _) fun visited => other (owns key visited)]
      exact unites.foreign own bound key other

/-- What a command of the queue does to the owners and to the union: the assembled reply is that of
the reference, a refusal by the quota of some owner, and the owners still hold the parts of the union. -/
def Stepped (router : ShardRouter) (configs : Nat → StoreConfig) (time : Clock) (owners : Nat → Store)
    (u : Store) (command : Command) (plan : CommandPlan) : Prop :=
  ∃ reply v, plan.reply.assemble (fragmentReplies owners plan) = .ok reply ∧
    (∀ replies, unionStep router configs (u, replies) command = (v, replies ++ [reply])) ∧
    reply.refused = refuses router configs u plan ∧
    Unites router configs time (ownersStep owners plan reply) v

theorem Unites.refuses (planned : router.WellPlanned command plan.fragments) :
    refuses router configs u plan = (fragmentReplies owners plan).any Reply.refused := by
  have same : fragmentReplies owners plan = plan.fragments.map fun fragment =>
      ((executeQueued fragment.command).run (u.share router configs fragment.owner)).1 :=
    List.map_congr_left fun fragment member =>
      unites.reply_owner (planned.bound _ member) fragment.command
  rw [same, List.any_map]
  rfl

/-- No owner refuses its part. -/
theorem stepped_granted (plans : router.planTransactionCommand command = .ok plan)
    (granted : ∀ reply ∈ fragmentReplies owners plan, reply.refused = false)
    (assembled : plan.reply.assemble (fragmentReplies owners plan) =
      .ok ((executeQueued command).run u).1)
    (answered : ((executeQueued command).run u).1.refused = false)
    (joint : 1 < plan.fragments.length → ((executeQueued command).run u).1.isError = false)
    (inside : ∀ key ∈ command.visitKeys, (accepted owners plan.fragments (router.shardFor key)).image? key =
      ((executeQueued command).run u).2.image? key) :
    Stepped router configs time owners u command plan := by
  have planned := (ShardRouter.plans_of_planTransactionCommand plans).wellPlanned
  have free : Sider.refuses router configs u plan = false := by
    rw [unites.refuses planned]
    exact List.any_eq_false.mpr fun reply member => by simp [granted reply member]
  refine ⟨_, ((executeQueued command).run u).2, assembled, fun replies => ?_, answered.trans free.symm, ?_⟩
  · unfold unionStep
    rw [plans]
    dsimp only
    rw [free]
    rfl
  · unfold ownersStep
    rw [if_neg (by
      rw [Bool.and_eq_true, decide_eq_true_eq]
      rintro ⟨several, failed⟩
      rw [joint several] at failed
      cases failed)]
    exact unites_accepted unites planned (executeQueued_framed command u)
      (executeQueued_sound command _ unites.union) inside

/-- Some owner refuses its part. -/
theorem stepped_refused (plans : router.planTransactionCommand command = .ok plan)
    (refused : .error .outOfMemory ∈ fragmentReplies owners plan)
    (assembled : plan.reply.assemble (fragmentReplies owners plan) = .ok (.error .outOfMemory))
    (inside : plan.fragments.length ≤ 1 → ∀ key ∈ command.visitKeys,
      (accepted owners plan.fragments (router.shardFor key)).image? key = u.live? time.now key) :
    Stepped router configs time owners u command plan := by
  have planned := (ShardRouter.plans_of_planTransactionCommand plans).wellPlanned
  have busy : Sider.refuses router configs u plan = true := by
    rw [unites.refuses planned]
    exact List.any_eq_true.mpr ⟨_, refused, rfl⟩
  have step : ∀ replies, unionStep router configs (u, replies) command =
      (if 1 < plan.fragments.length then u else u.purgeAll time.now command.visitKeys,
        replies ++ [.error .outOfMemory]) := by
    intro replies
    unfold unionStep
    rw [plans]
    dsimp only
    rw [busy, if_pos rfl, unites.unionClock]
  refine ⟨_, _, assembled, step, busy.symm, ?_⟩
  unfold ownersStep
  by_cases several : 1 < plan.fragments.length
  · rw [if_pos (by simp [several, Reply.isError]), if_pos several]
    exact unites
  · rw [if_neg (by simp [several]), if_neg several]
    refine unites_accepted unites planned ?_ (unites.union.purgeAll _ _) fun key visited => ?_
    · exact framed_purgeAll u _ _
    · rw [inside (by omega) key visited, image?_purgeAll, if_pos visited]

end Unites

end Sider
