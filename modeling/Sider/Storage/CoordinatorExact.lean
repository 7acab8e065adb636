/-
**The coordinator when nothing fails.**

With every control answered, the state of the protocol is the owners: `Settles owners s` says that the
owners are those of `s` once their queues are handled, and each control is one exact step on them. A loop
that asks distinct owners changes each of them once (`patched`, `askEach_step`). The tentative state of
the participants is a function `tx`; `begun base participants tx` are the owners that hold it. The
preparation of a command then changes `tx` alone, or stops because a fragment was sent to an owner that
has not begun.
-/

import Sider.Storage.CoordinatorPhases
import Sider.Storage.UnionStep

namespace Sider

open FailingProgram Store

variable {fragments : List Fragment} {base owners : Nat → Owner} {participants : List Nat}
  {tx : Nat → OwnerTransaction} {mode : Mode} {shard : Nat} {plan : CommandPlan} {change : Nat → Owner}

/-! ### Replies are equal to themselves -/

mutual

theorem Reply.beq_self : (reply : Reply) → reply.beq reply = true
  | .pong | .ok | .nullArray => rfl
  | .bulk _ | .integer _ | .error _ => by simp [Reply.beq]
  | .array replies => Reply.beqAll_self replies

theorem Reply.beqAll_self : (replies : List Reply) → Reply.beqAll replies replies = true
  | [] => rfl
  | reply :: rest => by rw [Reply.beqAll, Reply.beq_self reply, Reply.beqAll_self rest]; rfl

end

/-! ### Answered controls -/

/-- No control will fail, and the owners are as given once they have handled their queues. -/
structure Settles (owners : Nat → Owner) (s : System) : Prop where
  fates : s.fates = []
  channels : ∀ shard, (s.channels shard).settled = owners shard

section Controls

variable {sent : Control} {answer : Answer} {next : Owner} {ι α : Type}

theorem control_exact (step : (owners shard).coordinationControl sent = (answer, next)) :
    Returns (Settles owners) (CoordM.control shard sent) answer
      (Settles (Function.update owners shard next)) := by
  intro s settles
  have ran : CoordM.control shard sent s =
      (.ok answer, { s with fates := s.fates.tail }.withChannel shard ⟨next, []⟩) := by
    unfold CoordM.control
    rw [settles.fates]
    dsimp only [List.headD]
    rw [settles.channels shard, step]
  refine ⟨_, ran, congrArg List.tail settles.fates, fun other => ?_⟩
  show (if other = shard then (⟨next, []⟩ : Channel) else s.channels other).settled = _
  by_cases same : other = shard
  · subst same
    rw [if_pos rfl, Function.update_self]
    rfl
  · rw [if_neg same, Function.update_of_ne same]
    exact settles.channels other

section Ask

variable (read : Answer → Except DbError α)

theorem ask_exact {value : α} (step : (owners shard).coordinationControl sent = (answer, next))
    (reads : read answer = .ok value) :
    Returns (Settles owners) (CoordM.ask read shard sent) value
      (Settles (Function.update owners shard next)) := by
  refine (control_exact step).bind ?_
  rw [reads]
  exact .pure fun _ holds => holds

/-- A control that leaves its owner as it is. -/
theorem ask_keeps_owner {value : α}
    (step : (owners shard).coordinationControl sent = (answer, owners shard))
    (reads : read answer = .ok value) :
    Returns (Settles owners) (CoordM.ask read shard sent) value (Settles owners) := by
  have asked := ask_exact read step reads
  rwa [Function.update_eq_self] at asked

theorem ask_refused {error : DbError} (step : (owners shard).coordinationControl sent = (answer, next))
    (reads : read answer = .error error) :
    Triple (Settles owners) (CoordM.ask read shard sent) (fun _ _ => False) fun _ => True := by
  refine Triple.bind (control_exact step).triple fun result => Triple.given ?_
  rintro rfl
  rw [reads]
  exact Triple.throw fun _ _ => trivial

end Ask

/-- The owners, with those of some shards changed. -/
def patched (base : Nat → Owner) (shards : List Nat) (change : Nat → Owner) (shard : Nat) : Owner :=
  if shard ∈ shards then change shard else base shard

theorem patched_of_mem (member : shard ∈ participants) :
    patched base participants change shard = change shard :=
  if_pos member

theorem patched_of_notMem (absent : shard ∉ participants) :
    patched base participants change shard = base shard :=
  if_neg absent

theorem patched_nil : patched base [] change = base :=
  funext fun _ => patched_of_notMem List.not_mem_nil

theorem patched_append (shard : Nat) :
    Function.update (patched base participants change) shard (change shard) =
      patched base (participants ++ [shard]) change := by
  funext other
  by_cases same : other = shard
  · subst same
    rw [Function.update_self, patched_of_mem (by simp)]
  · rw [Function.update_of_ne same, patched, patched]
    simp [same]

/-- The program asks one owner, as it is in `base`, and changes it. -/
def Asks (base change : Nat → Owner) (shard : Nat) (program : CoordM α) (value : α) : Prop :=
  ∀ owners : Nat → Owner, owners shard = base shard →
    Returns (Settles owners) program value (Settles (Function.update owners shard (change shard)))

theorem asks_ask {read : Answer → Except DbError α} {value : α}
    (step : (base shard).coordinationControl sent = (answer, change shard))
    (reads : read answer = .ok value) : Asks base change shard (CoordM.ask read shard sent) value :=
  fun _ same => ask_exact read (same ▸ step) reads

theorem Asks.bind {β : Type} {first : CoordM α} {value : α} {next : α → CoordM β} {result : β}
    (asks : Asks base change shard first value) (returns : next value = pure result) :
    Asks base change shard (first >>= next) result :=
  fun owners same => (asks owners same).bind (returns ▸ .pure fun _ holds => holds)

section Loops

variable {items : List ι} {owner : ι → Nat} {shards : List Nat} (same : items.map owner = shards)
  (nodup : shards.Nodup)

include same nodup

/-- Distinct owners are asked one after the other: each is as in `base` when its turn comes. -/
theorem askEach_step {step : ι → CoordM α} {value : ι → α}
    (asks : ∀ item ∈ items, Asks base change (owner item) (step item) (value item)) :
    ∀ done item rest, items = done ++ item :: rest →
      Returns (Settles (patched base (done.map owner) change)) (step item) (value item)
        (Settles (patched base ((done ++ [item]).map owner) change)) := by
  intro done item rest split
  have asked := asks item (by rw [split]; simp) (patched base (done.map owner) change)
    (patched_of_notMem (fresh_of_nodup (same ▸ nodup) split))
  rw [patched_append] at asked
  rwa [List.map_append]

theorem askEach_mapM {step : ι → CoordM α} {value : ι → α}
    (asks : ∀ item ∈ items, Asks base change (owner item) (step item) (value item)) :
    Returns (Settles base) (items.mapM step) (items.map value) (Settles (patched base shards change)) := by
  have loop := Returns.mapM _ (askEach_step same nodup asks)
  rwa [List.map_nil, patched_nil, same] at loop

theorem askEach_forM {step : ι → CoordM Unit}
    (asks : ∀ item ∈ items, Asks base change (owner item) (step item) ()) :
    Returns (Settles base) (items.forM step) () (Settles (patched base shards change)) := by
  have loop := Returns.forM _ (askEach_step same nodup asks)
  rwa [List.map_nil, patched_nil, same] at loop

theorem askEach_allM {step : ι → CoordM Bool}
    (asks : ∀ item ∈ items, Asks base change (owner item) (step item) true) :
    Returns (Settles base) (items.allM step) true (Settles (patched base shards change)) := by
  have loop := Returns.allM _ (askEach_step same nodup asks)
  rwa [List.map_nil, patched_nil, same] at loop

end Loops

end Controls

/-! ### Tentative state -/

/-- The owners, with the tentative state of the participants. -/
abbrev begun (base : Nat → Owner) (participants : List Nat) (tx : Nat → OwnerTransaction) : Nat → Owner :=
  patched base participants fun shard => { base shard with coordinated := some (tx shard) }

/-- Each owner with a fragment accepts its candidate. -/
def acceptAll (tx : Nat → OwnerTransaction) (fragments : List Fragment) (shard : Nat) : OwnerTransaction :=
  match fragments.find? (·.owner = shard) with
  | some fragment => (tx shard).acceptCandidate ((tx shard).prepareCandidate fragment.command)
  | none => tx shard

theorem acceptAll_of_mem (nodup : (fragments.map Fragment.owner).Nodup) {fragment : Fragment}
    (member : fragment ∈ fragments) : acceptAll tx fragments fragment.owner =
      (tx fragment.owner).acceptCandidate ((tx fragment.owner).prepareCandidate fragment.command) := by
  unfold acceptAll
  cases found : fragments.find? (·.owner = fragment.owner) with
  | none => simpa using List.find?_eq_none.mp found fragment member
  | some other =>
    have same : other.owner = fragment.owner := by simpa using List.find?_some found
    rw [List.inj_on_of_nodup_map nodup (List.mem_of_find?_eq_some found) member same]

theorem acceptAll_of_fresh (fresh : shard ∉ fragments.map Fragment.owner) :
    acceptAll tx fragments shard = tx shard := by
  unfold acceptAll
  rw [List.find?_eq_none.mpr fun other member => ?_]
  exact fun same => fresh (of_decide_eq_true same ▸ List.mem_map_of_mem member)

namespace Coordinator

open CoordM

section Preparation

/-- Every participant copies its keys. -/
theorem beginAll_exact {time : Clock} {keys : Nat → List Bytes} (nodup : participants.Nodup)
    (idle : ∀ shard ∈ participants, (base shard).coordinated = none)
    (supports : ∀ shard ∈ participants, (base shard).supportsCoordinatedMode mode = true) :
    Returns (Settles base)
      (participants.forM fun owner => ask Answer.toDone owner (.begin mode (keys owner) time)) ()
      (Settles (begun base participants
        fun shard => OwnerTransaction.start (base shard).store (keys shard) time)) := by
  have step : ∀ shard ∈ participants, (base shard).coordinationControl (.begin mode (keys shard) time) =
      (.done (.ok ()), { base shard with
        coordinated := some (OwnerTransaction.start (base shard).store (keys shard) time) }) := by
    intro shard member
    rw [Owner.coordinationControl, supports shard member, idle shard member]
    rfl
  exact askEach_forM (List.map_id' participants) nodup fun shard member => asks_ask (step shard member) rfl

section

variable (inside : ∀ fragment ∈ fragments, fragment.owner ∈ participants)

include inside

theorem candidates_exact :
    Returns (Settles (begun base participants tx)) (fragments.mapM candidateOf)
      (fragments.map fun fragment =>
        (fragment.owner, (tx fragment.owner).prepareCandidate fragment.command))
      (Settles (begun base participants tx)) := by
  refine Returns.mapM (fun _ => Settles (begun base participants tx)) fun done fragment rest split => ?_
  have step : (begun base participants tx fragment.owner).coordinationControl (.candidate fragment.command) =
      (.prepared (.ok ((tx fragment.owner).prepareCandidate fragment.command)),
        begun base participants tx fragment.owner) := by
    rw [begun, patched_of_mem (inside fragment (by rw [split]; simp))]
    rfl
  exact (ask_keeps_owner Answer.toPrepared step rfl).bind (.pure fun _ holds => holds)

theorem acceptances_exact (nodup : (fragments.map Fragment.owner).Nodup) :
    Returns (Settles (begun base participants tx))
      ((fragments.map fun fragment =>
        (fragment.owner, (tx fragment.owner).prepareCandidate fragment.command)).forM acceptOne) ()
      (Settles (begun base participants (acceptAll tx fragments))) := by
  have owners : (fragments.map fun fragment =>
      (fragment.owner, (tx fragment.owner).prepareCandidate fragment.command)).map Prod.fst =
        fragments.map Fragment.owner := by rw [List.map_map]; rfl
  have accepted : patched (begun base participants tx) (fragments.map Fragment.owner)
      (fun shard => { base shard with coordinated := some (acceptAll tx fragments shard) }) =
        begun base participants (acceptAll tx fragments) := by
    funext shard
    by_cases listed : shard ∈ fragments.map Fragment.owner
    · obtain ⟨fragment, member, rfl⟩ := List.mem_map.mp listed
      rw [patched_of_mem listed, begun, patched_of_mem (inside fragment member)]
    · rw [patched_of_notMem listed, begun, begun, patched, patched, acceptAll_of_fresh listed]
  rw [← accepted]
  refine askEach_forM owners nodup fun candidate listed => ?_
  obtain ⟨fragment, member, rfl⟩ := List.mem_map.mp listed
  have step : (begun base participants tx fragment.owner).coordinationControl
      (.accept ((tx fragment.owner).prepareCandidate fragment.command)) =
        (.reply (.ok ((tx fragment.owner).prepareCandidate fragment.command).reply),
          { base fragment.owner with coordinated := some (acceptAll tx fragments fragment.owner) }) := by
    rw [begun, patched_of_mem (inside fragment member), acceptAll_of_mem nodup member]
    rfl
  exact Asks.bind (asks_ask step rfl) (if_pos (Reply.beq_self _))

end

/-- **A planned command**, all of whose fragments are sent to participants. -/
theorem prepareCommand_exact {reply : Reply}
    (inside : ∀ fragment ∈ plan.fragments, fragment.owner ∈ participants)
    (nodup : (plan.fragments.map Fragment.owner).Nodup) (active : isUnwatch plan.fragments = false)
    (assembled : plan.reply.assemble (plan.fragments.map fun fragment =>
      ((tx fragment.owner).prepareCandidate fragment.command).reply) = .ok reply) :
    Returns (Settles (begun base participants tx)) (prepareCommand plan) reply
      (Settles (begun base participants
        (if 1 < plan.fragments.length && reply.isError then tx else acceptAll tx plan.fragments))) := by
  unfold prepareCommand
  rw [active, if_neg Bool.false_ne_true]
  refine (candidates_exact inside).bind ?_
  rw [List.map_map]
  dsimp only [Function.comp_def]
  rw [assembled]
  dsimp only
  rw [List.length_map]
  split_ifs with rejected
  · exact .pure fun _ holds => holds
  · exact (acceptances_exact inside nodup).bind (.pure fun _ holds => holds)

/-- A fragment sent to an owner that has not begun stops the preparation. -/
theorem prepareCommand_stops {own : Nat} {command : Command}
    (single : plan.fragments = [⟨own, command⟩]) (absent : own ∉ participants)
    (idle : (base own).coordinated = none) (active : isUnwatch plan.fragments = false) :
    Triple (Settles (begun base participants tx)) (prepareCommand plan) (fun _ _ => False)
      fun _ => True := by
  unfold prepareCommand
  rw [active, if_neg Bool.false_ne_true, single, List.mapM_cons]
  have step : (begun base participants tx own).coordinationControl (.candidate command) =
      (.prepared (.error .unavailable), begun base participants tx own) := by
    rw [begun, patched_of_notMem absent, Owner.coordinationControl, idle]
  exact (ask_refused _ step rfl).stops.stops.stops

/-- Every participant gives up its tentative state. -/
theorem sealAll_exact (nodup : participants.Nodup)
    (idle : ∀ shard ∈ participants, (base shard).coordinated = none) :
    Returns (Settles (begun base participants tx)) (participants.mapM sealOne)
      (participants.map fun shard => (shard, (tx shard).sealed (base shard).store [])) (Settles base) := by
  have emptied : patched (begun base participants tx) participants base = base := by
    funext shard
    by_cases member : shard ∈ participants
    · exact patched_of_mem member
    · rw [patched_of_notMem member, begun, patched_of_notMem member]
  have step : ∀ shard ∈ participants, (begun base participants tx shard).coordinationControl .sealOwner =
      (.prepared (.ok ((tx shard).sealed (base shard).store [])), base shard) := by
    intro shard member
    have released : { base shard with coordinated := none } = base shard := by
      rw [← idle shard member]
    rw [begun, patched_of_mem member]
    exact congrArg (Prod.mk _) released
  have loop : Returns (Settles (begun base participants tx)) (participants.mapM sealOne)
      (participants.map fun shard => (shard, (tx shard).sealed (base shard).store []))
      (Settles (patched (begun base participants tx) participants base)) :=
    askEach_mapM (List.map_id' participants) nodup fun shard member =>
      Asks.bind (asks_ask (step shard member) rfl) rfl
  rwa [emptied] at loop

end Preparation

/-! ### Decision and application -/

section Publication

variable {env : Environment}

/-- The owners after each participant applied its part. -/
abbrev appliedTo (base : Nat → Owner) (participants : List Nat) (parts : Nat → Prepared) : Nat → Owner :=
  patched base participants fun shard =>
    { base shard with store := (base shard).store.apply (parts shard) }

theorem logDecision_exact {owners : List (Nat × Prepared)} (written : env.append = .written)
    (calm : ∀ point, env.faulty point = false) (distinct : repeatedKey (mergedMutations owners) = false) :
    Returns (Settles base) (logDecision env mode owners) none (Settles base) := by
  unfold logDecision
  cases mode.durable with
  | false => exact .pure fun _ holds => holds
  | true =>
    rw [if_pos rfl, calm, if_neg Bool.false_ne_true]
    dsimp only
    rw [distinct, if_neg Bool.false_ne_true]
    split_ifs
    · exact .pure fun _ holds => holds
    · unfold append
      rw [written]
      exact fun s holds => ⟨_, rfl, holds.fates, holds.channels⟩

theorem applyAll_exact {parts : Nat → Prepared} (nodup : participants.Nodup)
    (idle : ∀ shard ∈ participants, (base shard).coordinated = none)
    (supports : ∀ shard ∈ participants, (base shard).supportsCoordinatedMode mode = true)
    (calm : ∀ point, env.faulty point = false) :
    Returns (Settles base) (applyAll env mode (participants.map fun shard => (shard, parts shard))) ()
      (Settles (appliedTo base participants parts)) := by
  have shards : ((participants.map fun shard => (shard, parts shard)).zipIdx.map fun owner => owner.1.1) =
      participants := by
    rw [show (fun owner : (Nat × Prepared) × Nat => owner.1.1) = Prod.fst ∘ Prod.fst from rfl,
      ← List.map_map, List.zipIdx_map_fst, List.map_map]
    exact List.map_id _
  unfold applyAll
  rw [calm, if_neg Bool.false_ne_true, calm, Bool.and_false, if_neg Bool.false_ne_true]
  have applied : Returns (Settles base)
      ((participants.map fun shard => (shard, parts shard)).zipIdx.forM (applyOne env mode)) ()
      (Settles (appliedTo base participants parts)) := by
    refine askEach_forM shards nodup ?_
    rintro ⟨⟨shard, _⟩, index⟩ listed
    obtain ⟨_, member, ⟨⟩⟩ := List.mem_map.mp (List.fst_mem_of_mem_zipIdx listed)
    have step : (base shard).coordinationControl (.apply mode (parts shard)) =
        (.done (.ok ()), { base shard with store := (base shard).store.apply (parts shard) }) := by
      simp [Owner.coordinationControl, supports shard member, idle shard member]
    refine Asks.bind (asks_ask step rfl) ?_
    rw [calm, Bool.and_false, if_neg Bool.false_ne_true]
  refine applied.bind ?_
  rw [calm, Bool.and_false, if_neg Bool.false_ne_true]
  exact .pure fun _ holds => holds

end Publication

/-! ### Preflight -/

/-- The owner, with another watch registry. -/
def Rewatched (before after : Owner) : Prop :=
  ∃ watches, after = { before with store := { before.store with watches := watches } }

/-- Every owner supports the mode, and the watched keys are unchanged. -/
theorem preflight_exact {router : ShardRouter} (plan : TransactionPlan) {watched : List WatchToken}
    (ready : ∀ shard < router.count,
      (base shard).supportsCoordinatedMode mode = true ∧ (base shard).coordinated = none)
    (nodup : plan.participants.Nodup)
    (unchanged : ∀ shard ∈ plan.participants, (base shard).store.watchesValidAt
      (watched.filter fun token => router.shardFor token.key = shard)
      (base (plan.participants.headD 0)).store.clock.now = true) :
    ∃ after, (∀ shard, Rewatched (base shard) (after shard)) ∧
      Returns (Settles base) (preflight router plan mode watched)
        (some (base (plan.participants.headD 0)).store.clock) (Settles after) := by
  have probed : ∀ done shard rest, List.range router.count = done ++ shard :: rest →
      Returns (Settles base)
        (do if ← ask Answer.toFlag shard (.probe mode) then pure () else throw .unavailable) ()
        (Settles base) := by
    intro done shard rest split
    have bound : shard < router.count := List.mem_range.mp (by rw [split]; simp)
    have step : (base shard).coordinationControl (.probe mode) = (.flag true, base shard) := by
      rw [Owner.coordinationControl, (ready shard bound).1, (ready shard bound).2]
      rfl
    exact (ask_keeps_owner Answer.toFlag step rfl).bind (.pure fun _ holds => holds)
  have checked : ∀ shard ∈ plan.participants, (base shard).coordinationControl (.checkWatches
      (watched.filter fun token => router.shardFor token.key = shard)
        (base (plan.participants.headD 0)).store.clock) =
      (.flag true, { base shard with store := { (base shard).store with
        watches := (watched.filter fun token => router.shardFor token.key = shard).foldl Registry.drop
          (base shard).store.watches } }) := by
    intro shard member
    rw [Owner.coordinationControl, unchanged shard member]
  refine ⟨_, fun shard => ?_, (Returns.forM (fun _ => Settles base) probed).bind
    ((ask_keeps_owner Answer.toTime rfl rfl).bind ((askEach_allM (List.map_id' plan.participants) nodup
      fun shard member => asks_ask (checked shard member) rfl).bind (.pure fun _ holds => holds)))⟩
  by_cases member : shard ∈ plan.participants
  · exact ⟨_, patched_of_mem member⟩
  · exact ⟨_, patched_of_notMem member⟩

end Coordinator

end Sider
