/-
**A coordinated EXEC is an EXEC on the union of the owners.**

`Refines` is what a coordinated EXEC is for: its replies, and the entries of the owners after it, are
those of the queue on one store that holds the union (`unionRun`). It holds exactly of the queues whose
every command is sent to a participant (`Reached`): PING and ECHO are sent to owner 0, which has not
begun unless some key of the queue or some watched key belongs to it, and the EXEC then stops.

`Shadows` ties the tentative states of the participants to stores that execute the fragments directly;
`prepareAll_exact` carries it along the queue together with `Unites`.
-/

import Sider.Storage.CoordinatorAtomic
import Sider.Storage.CoordinatorExact

namespace Sider

open FailingProgram Store

variable {shard : Nat} {command : Command} {plan : CommandPlan} {commands : List Command}
  {plans : List CommandPlan} {stores : Nat → Store} {tx : Nat → OwnerTransaction} {key : Bytes}
  {router : ShardRouter} {configs : Nat → StoreConfig} {base : Nat → Owner}
  {participants : List Nat} {keys : Nat → List Bytes} {time : Clock} {u : Store} {env : Environment}

/-! ### Tentative states and direct execution -/

/-- Each participant's tentative state follows a store that executes its fragments; the other stores
are unchanged. -/
structure Shadows (base : Nat → Owner) (participants : List Nat) (keys : Nat → List Bytes) (time : Clock)
    (stores : Nat → Store) (tx : Nat → OwnerTransaction) : Prop where
  follows : ∀ shard ∈ participants, ∃ changed,
    Follows 0 (base shard).store (keys shard) time (stores shard, []) changed (tx shard, [])
  others : ∀ shard, shard ∉ participants → ∀ key,
    (stores shard).image? key = (base shard).store.image? key

theorem shadows_start (nodup : ∀ shard, (keys shard).Nodup)
    (sound : ∀ shard ∈ participants, Sound 0 (base shard).store) :
    Shadows base participants keys time (fun shard => (base shard).store.atClock time)
      fun shard => OwnerTransaction.start (base shard).store (keys shard) time :=
  ⟨fun shard member => ⟨_, follows_start (sound shard member) (nodup shard)⟩, fun _ _ _ => rfl⟩

/-- One fragment, prepared and accepted. -/
theorem Shadows.candidate (shadows : Shadows base participants keys time stores tx)
    (member : shard ∈ participants) (ordinary : command.isMemory = false)
    (active : command ≠ .unwatch) (own : ∀ key ∈ command.visitKeys, key ∈ keys shard) :
    ((tx shard).prepareCandidate command).reply = ((executeQueued command).run (stores shard)).1 ∧
      ∃ changed, Follows 0 (base shard).store (keys shard) time
        (((executeQueued command).run (stores shard)).2, []) changed
        ((tx shard).acceptCandidate ((tx shard).prepareCandidate command), []) := by
  obtain ⟨changed, follows⟩ := shadows.follows shard member
  have step := follows_step follows ordinary own
  have tentative : OwnerTransaction.step (tx shard, []) command =
      ((tx shard).acceptCandidate ((tx shard).prepareCandidate command),
        [((tx shard).prepareCandidate command).reply]) := by
    cases command with
    | unwatch => exact absurd rfl active
    | _ => rfl
  rw [tentative] at step
  exact ⟨List.singleton_inj.mp step.replies, _, { step with replies := rfl }⟩

/-- UNWATCH has one fragment, and no other command has an UNWATCH fragment. -/
theorem plans_unwatch (plans : router.Plans command plan) {fragment : Fragment}
    (member : fragment ∈ plan.fragments) (same : fragment.command = .unwatch) :
    command = .unwatch ∧ plan = ⟨[⟨fragment.owner, .unwatch⟩], .direct, false⟩ := by
  cases plans with
  | direct =>
    obtain rfl := List.mem_singleton.mp member
    subst same
    exact ⟨rfl, rfl⟩
  | mGet | «exists» | del =>
    obtain ⟨own, _, rfl⟩ := List.mem_map.mp member
    cases same
  | mSet =>
    obtain ⟨own, _, rfl⟩ := List.mem_map.mp member
    cases same

theorem active_of_mem (plans : router.Plans command plan)
    (active : Coordinator.isUnwatch plan.fragments = false) :
    ∀ fragment ∈ plan.fragments, fragment.command ≠ .unwatch := by
  intro fragment member same
  rw [(plans_unwatch plans member same).2] at active
  cases active

theorem exists_of_isUnwatch {fragments : List Fragment} (unwatch : Coordinator.isUnwatch fragments = true) :
    ∃ own, fragments = [⟨own, .unwatch⟩] := by
  unfold Coordinator.isUnwatch at unwatch
  split at unwatch
  · exact ⟨_, rfl⟩
  · cases unwatch

/-- The fragments of a command, prepared and accepted. -/
theorem Shadows.accept (shadows : Shadows base participants keys time stores tx)
    (plans : router.Plans command plan) (ordinary : command.isMemory = false)
    (active : Coordinator.isUnwatch plan.fragments = false)
    (inside : ∀ fragment ∈ plan.fragments, fragment.owner ∈ participants)
    (own : ∀ fragment ∈ plan.fragments, ∀ key ∈ fragment.command.visitKeys, key ∈ keys fragment.owner) :
    (plan.fragments.map fun fragment => ((tx fragment.owner).prepareCandidate fragment.command).reply) =
        fragmentReplies stores plan ∧
      Shadows base participants keys time (accepted stores plan.fragments)
        (acceptAll tx plan.fragments) := by
  have planned := plans.wellPlanned
  have each : ∀ fragment ∈ plan.fragments, _ := fun fragment member =>
    shadows.candidate (inside fragment member) (planned.ordinary ordinary fragment member)
      (active_of_mem plans active fragment member) (own fragment member)
  refine ⟨List.map_congr_left fun fragment member => (each fragment member).1,
    fun shard member => ?_, fun shard absent key => ?_⟩
  · unfold accepted acceptAll
    cases found : plan.fragments.find? (·.owner = shard) with
    | none => exact shadows.follows shard member
    | some fragment =>
      have mine : fragment.owner = shard := by simpa using List.find?_some found
      subst mine
      exact (each fragment (List.mem_of_find?_eq_some found)).2
  · have none_ : plan.fragments.find? (·.owner = shard) = none :=
      List.find?_eq_none.mpr fun fragment member same =>
        absent ((of_decide_eq_true same) ▸ inside fragment member)
    unfold accepted
    rw [none_]
    exact shadows.others shard absent key

/-! ### The whole queue -/

/-- Every command is sent to a participant: one without keys, other than UNWATCH, is sent to owner 0. -/
def Reached (participants : List Nat) (commands : List Command) : Prop :=
  ∀ command ∈ commands, command.visitKeys = [] → command = .unwatch ∨ 0 ∈ participants

theorem accepted_unwatch (stores : Nat → Store) (own : Nat) :
    accepted stores [⟨own, .unwatch⟩] = stores := by
  funext shard
  unfold accepted
  split <;> rename_i fragment found
  · obtain rfl := List.mem_singleton.mp (List.mem_of_find?_eq_some found)
    rfl
  · rfl

/-- Each command with its plan. -/
abbrev ShardRouter.Planned (router : ShardRouter) : List Command → List CommandPlan → Prop :=
  List.Forall₂ fun command plan => router.planTransactionCommand command = .ok plan

namespace Coordinator

/-- The participants prepare the queue as the reference executes it, or some command is not sent to a
participant. -/
theorem prepareAll_exact (planned : router.Planned commands plans)
    (plannable : ∀ command ∈ commands, Plannable router command)
    (idle : ∀ shard, shard ∉ participants → shard < router.count → (base shard).coordinated = none)
    (covers : ∀ command ∈ commands, ∀ key ∈ command.visitKeys, router.shardFor key ∈ participants)
    (own : ∀ plan ∈ plans, ∀ fragment ∈ plan.fragments, ∀ key ∈ fragment.command.visitKeys,
      key ∈ keys fragment.owner) (unites : Unites router configs time stores u)
    (shadows : Shadows base participants keys time stores tx) :
    Triple (Settles (begun base participants tx)) (plans.mapM prepareCommand)
      (fun replies t => Reached participants commands ∧ replies = (unionRun router configs u commands).2 ∧
        ∃ stores tx, Unites router configs time stores (unionRun router configs u commands).1 ∧
          Shadows base participants keys time stores tx ∧ Settles (begun base participants tx) t)
      fun _ => ¬ Reached participants commands := by
  induction planned generalizing stores tx u with
  | nil =>
    exact Triple.pure fun t holds => ⟨(by simp [Reached]), rfl, stores, tx, unites, shadows, holds⟩
  | @cons command plan commands plans head tail ih =>
    have plansFirst := ShardRouter.plans_of_planTransactionCommand head
    have wellPlanned := plansFirst.wellPlanned
    have first := plannable command List.mem_cons_self
    obtain ⟨reply, v, assembled, step, _, after⟩ := unites_step unites first head
    have run : unionRun router configs u (command :: commands) =
        ((unionRun router configs v commands).1, reply :: (unionRun router configs v commands).2) := by
      show commands.foldl (unionStep router configs) (unionStep router configs (u, []) command) = _
      rw [step, foldl_unionStep]
      rfl
    have rest : ∀ {stores tx}, Unites router configs time stores v →
        Shadows base participants keys time stores tx →
        Triple (Settles (begun base participants tx)) (plans.mapM prepareCommand) _ _ :=
      fun united shadowed => ih (fun other member => plannable other (List.mem_cons_of_mem _ member))
        (fun other member => covers other (List.mem_cons_of_mem _ member))
        (fun other member => own other (List.mem_cons_of_mem _ member)) united shadowed
    -- Once the command is prepared as the reference executes it, the rest of the queue follows.
    have continues : ∀ {stores tx}, Unites router configs time stores v →
        Shadows base participants keys time stores tx →
        (command.visitKeys = [] → command = .unwatch ∨ 0 ∈ participants) →
        Triple (fun t => Settles (begun base participants tx) t)
          (do let replies ← plans.mapM prepareCommand; pure (reply :: replies))
          (fun replies t => Reached participants (command :: commands) ∧
            replies = (unionRun router configs u (command :: commands)).2 ∧
            ∃ stores tx,
              Unites router configs time stores (unionRun router configs u (command :: commands)).1 ∧
              Shadows base participants keys time stores tx ∧ Settles (begun base participants tx) t)
          fun _ => ¬ Reached participants (command :: commands) := by
      intro stores tx united shadowed reached
      rw [run]
      refine Triple.bind ((rest united shadowed).imp (fun _ _ holds => holds)
        fun _ fails all => fails fun other member => all other (List.mem_cons_of_mem _ member))
        fun replies => ?_
      refine Triple.pure fun t holds => ⟨fun other member => ?_, congrArg _ holds.2.1, holds.2.2⟩
      rcases List.mem_cons.mp member with rfl | later
      · exact reached
      · exact holds.1 other later
    rw [List.mapM_cons]
    by_cases reached : command.visitKeys = [] → command = .unwatch ∨ 0 ∈ participants
    · cases active : isUnwatch plan.fragments with
      | true =>
        obtain ⟨owner, only⟩ := exists_of_isUnwatch active
        obtain ⟨-, rfl⟩ := plans_unwatch plansFirst (only ▸ List.mem_singleton_self _) rfl
        cases assembled
        rw [ownersStep, if_neg (by simp), accepted_unwatch] at after
        exact continues after shadows reached
      | false =>
        have inside : ∀ fragment ∈ plan.fragments, fragment.owner ∈ participants := by
          intro fragment member
          rcases wellPlanned.placed fragment member with ⟨keyless, zero⟩ | ⟨key, visited, mine⟩
          · have other : command ≠ .unwatch := by
              rintro rfl
              rw [router.planTransactionCommand_keyless rfl] at head
              cases head
              cases active
            exact zero ▸ (reached keyless).resolve_left other
          · exact mine ▸ covers command List.mem_cons_self key visited
        obtain ⟨replies, shadowed⟩ := shadows.accept plansFirst first.ordinary active inside
          (own plan List.mem_cons_self)
        rw [← replies] at assembled
        refine Triple.bind (prepareCommand_exact inside wellPlanned.nodup active assembled).triple
          fun result => Triple.given ?_
        rintro rfl
        unfold ownersStep at after
        split_ifs at after ⊢ with rejected
        · exact continues after shadows reached
        · exact continues after shadowed reached
    · obtain ⟨keyless, active, absent⟩ :
          command.visitKeys = [] ∧ command ≠ .unwatch ∧ 0 ∉ participants := by
        rw [Classical.not_imp, not_or] at reached
        exact reached
      have direct : plan = ⟨[⟨0, command⟩], .direct, false⟩ := by
        rw [router.planTransactionCommand_keyless keyless] at head
        exact (Except.ok.inj head).symm
      have fails : ¬ Reached participants (command :: commands) :=
        fun all => reached (all command List.mem_cons_self)
      subst direct
      have busy : isUnwatch [⟨0, command⟩] = false := by
        unfold isUnwatch
        split
        · rename_i same
          exact absurd (Fragment.mk.inj (List.singleton_inj.mp same)).2 active
        · rfl
      have stops : Triple (Settles (begun base participants tx))
          (prepareCommand ⟨[⟨0, command⟩], .direct, false⟩) (fun _ _ => False) fun _ => True :=
        prepareCommand_stops rfl absent (idle 0 absent router.positive) busy
      exact stops.stops.imp (fun _ _ => False.elim) fun _ _ => fails

/-! ### Publication -/

theorem repeatedKey_of_nodup {mutations : List Mutation} (nodup : (mutations.map Mutation.key).Nodup) :
    repeatedKey mutations = false := by
  fun_induction repeatedKey mutations with
  | case1 first second rest ih =>
    obtain ⟨fresh, tail⟩ := List.nodup_cons.mp nodup
    have different : first.key ≠ second.key := fun same => fresh (same ▸ List.mem_cons_self)
    rw [ih tail, decide_eq_false different]
    rfl
  | case2 => rfl

theorem mem_ownerKeys :
    key ∈ ownerKeys plans shard ↔ ∃ plan ∈ plans, ∃ fragment ∈ plan.fragments,
      fragment.owner = shard ∧ key ∈ fragment.command.visitKeys := by
  unfold ownerKeys
  rw [OrdMap.mem_keys, OrdMap.mem_ofKeys]
  simp only [List.mem_flatMap, List.mem_filter, decide_eq_true_eq]
  constructor
  · rintro ⟨fragment, ⟨⟨plan, listed, inside⟩, mine⟩, visited⟩
    exact ⟨plan, listed, fragment, inside, mine, visited⟩
  · rintro ⟨plan, listed, fragment, inside, mine, visited⟩
    exact ⟨fragment, ⟨⟨plan, listed, inside⟩, mine⟩, visited⟩

section

variable (planned : router.Planned commands plans)

include planned

/-- A planned command owns the keys of its fragments. -/
theorem wellPlanned_of_mem (listed : plan ∈ plans) :
    ∃ command, ShardRouter.WellPlanned router command plan.fragments := by
  induction planned with
  | nil => cases listed
  | cons head _ ih =>
    rcases List.mem_cons.mp listed with rfl | later
    · exact ⟨_, (ShardRouter.plans_of_planTransactionCommand head).wellPlanned⟩
    · exact ih later

theorem ownerKeys_owned (member : key ∈ ownerKeys plans shard) : router.shardFor key = shard := by
  obtain ⟨plan, listed, fragment, inside, mine, visited⟩ := mem_ownerKeys.mp member
  obtain ⟨command, wellPlanned⟩ := wellPlanned_of_mem planned listed
  exact mine ▸ wellPlanned.owns fragment inside key visited

end

/-- The keys of the participants' results are different. -/
theorem distinct_mutations (nodup : participants.Nodup)
    (planned : router.Planned commands plans)
    (shadows : Shadows base participants (ownerKeys plans) time stores tx) :
    repeatedKey (mergedMutations (participants.map fun shard =>
      (shard, (tx shard).sealed (base shard).store []))) = false := by
  have owned : ∀ shard, ∀ key ∈ ownerKeys plans shard, router.shardFor key = shard :=
    fun _ _ member => ownerKeys_owned planned member
  have names : ∀ shard ∈ participants,
      ((tx shard).sealed (base shard).store []).batch.mutations.map Mutation.key =
        (ownerKeys plans shard).filter (tx shard).touches := by
    intro shard member
    obtain ⟨changed, follows⟩ := shadows.follows shard member
    exact (mutations_keys _).trans (OwnerTransaction.sealed_overlay follows.running []).names
  refine repeatedKey_of_nodup ?_
  have sorted : (mergedMutations (participants.map fun shard =>
      (shard, (tx shard).sealed (base shard).store []))).Perm
        ((participants.map fun shard => (shard, (tx shard).sealed (base shard).store [])).flatMap
          fun owner => owner.2.batch.mutations) := List.perm_insertionSort _ _
  refine (sorted.map Mutation.key).nodup_iff.mpr ?_
  rw [List.map_flatMap, List.flatMap_map, List.nodup_flatMap]
  refine ⟨fun shard member => ?_, ?_⟩
  · rw [names shard member]
    exact (OrdMap.nodup_keys _).filter _
  · refine nodup.imp_of_mem fun {first second} here there different key one two => ?_
    dsimp only at one two
    rw [names first here] at one
    rw [names second there] at two
    exact different ((owned first key (List.mem_filter.mp one).1).symm.trans
      (owned second key (List.mem_filter.mp two).1))

/-- The stores after the participants applied what they sealed. -/
theorem image?_appliedTo (sound : ∀ shard ∈ participants, Sound 0 (base shard).store)
    (shadows : Shadows base participants keys time stores tx) (shard : Nat) (key : Bytes) :
    (appliedTo base participants (fun shard => (tx shard).sealed (base shard).store [])
      shard).store.image? key = (stores shard).image? key := by
  by_cases member : shard ∈ participants
  · rw [appliedTo, patched_of_mem member]
    obtain ⟨changed, follows⟩ := shadows.follows shard member
    have overlay := OwnerTransaction.sealed_overlay follows.running []
    rw [(overlay.apply (sound shard member)).2 key]
    split_ifs with own
    · exact (follows.images key own).symm
    · exact congrArg (Option.map Entry.toImage) (follows.outside key own).symm
  · rw [appliedTo, patched_of_notMem member]
    exact (shadows.others shard member key).symm

/-- How a publication ends when nothing fails: with the reference's replies and entries if every command
is sent to a participant, and with an error otherwise. -/
def Published (router : ShardRouter) (configs : Nat → StoreConfig) (time : Clock) (u : Store)
    (participants : List Nat) (commands : List Command) (result : Except DbError Reply) (t : System) : Prop :=
  (Reached participants commands ∧ result = .ok (.array (unionRun router configs u commands).2) ∧
      ∃ stores, Unites router configs time stores (unionRun router configs u commands).1 ∧
        ∀ shard key, (t.channels shard).settled.store.image? key = (stores shard).image? key) ∨
    (¬ Reached participants commands ∧ ∃ error, result = .error error)

theorem publish_exact {mode : Mode} (written : env.append = .written)
    (calm : ∀ point, env.faulty point = false) (planned : router.Planned commands plans)
    (plannable : ∀ command ∈ commands, Plannable router command) (nodup : participants.Nodup)
    (bound : ∀ shard ∈ participants, shard < router.count)
    (covers : ∀ command ∈ commands, ∀ key ∈ command.visitKeys, router.shardFor key ∈ participants)
    (ready : ∀ shard < router.count,
      (base shard).supportsCoordinatedMode mode = true ∧ (base shard).coordinated = none)
    (sound : ∀ shard < router.count, Sound 0 (base shard).store)
    (unites : Unites router configs time (fun shard => (base shard).store.atClock time) u) :
    StateProgram.Triple (Settles base) (publish env ⟨participants, plans⟩ mode time)
      fun result t => Published router configs time u participants commands result.1 t ∧
        (Reached participants commands → result.2 = true) := by
  have idle : ∀ shard ∈ participants, (base shard).coordinated = none := fun shard member =>
    (ready shard (bound shard member)).2
  have supports : ∀ shard ∈ participants, (base shard).supportsCoordinatedMode mode = true :=
    fun shard member => (ready shard (bound shard member)).1
  have own : ∀ shard ∈ participants, Sound 0 (base shard).store := fun shard member =>
    sound shard (bound shard member)
  have prepared : Triple (Settles base) (prepare ⟨participants, plans⟩ mode time)
      (fun result t => ∃ stores tx, Reached participants commands ∧
        result = ((unionRun router configs u commands).2,
          participants.map fun shard => (shard, (tx shard).sealed (base shard).store [])) ∧
        Unites router configs time stores (unionRun router configs u commands).1 ∧
        Shadows base participants (ownerKeys plans) time stores tx ∧ Settles base t)
      fun _ => ¬ Reached participants commands := by
    refine Triple.bind (beginAll_exact nodup idle supports).triple fun _ => Triple.given fun _ => ?_
    refine Triple.bind (prepareAll_exact planned plannable (fun shard _ inside => (ready shard inside).2)
      covers (fun plan listed fragment inside key visited =>
        mem_ownerKeys.mpr ⟨plan, listed, fragment, inside, rfl, visited⟩) unites
      (shadows_start (fun shard => OrdMap.nodup_keys _) own)) fun replies => ?_
    rintro t ⟨reached, rfl, stores, tx, united, shadows, settles⟩
    refine Triple.bind (sealAll_exact nodup idle).triple (fun owners => Triple.given ?_) t settles
    rintro rfl
    exact Triple.pure fun t holds => ⟨stores, tx, reached, rfl, united, shadows, holds⟩
  refine StateProgram.Triple.bind prepared.attempt fun outcome => ?_
  rcases outcome with error | ⟨replies, owners⟩
  · refine StateProgram.Triple.bind StateProgram.Triple.fact fun aborted => ?_
    have ends : ∀ complete, StateProgram.Triple (fun _ => ¬ Reached participants commands)
        (pure (.error error, complete) : StateM System (Except DbError Reply × Bool))
        fun result t => Published router configs time u participants commands result.1 t ∧
          (Reached participants commands → result.2 = true) :=
      fun _ => StateProgram.Triple.pure fun _ fails =>
        ⟨.inr ⟨fails, error, rfl⟩, fun reached => absurd reached fails⟩
    rcases aborted with failure | _
    · exact ends false
    · exact ends true
  · refine StateProgram.Triple.exists fun stores => StateProgram.Triple.exists fun tx =>
      StateProgram.Triple.given fun reached => StateProgram.Triple.given fun same =>
      StateProgram.Triple.given fun united => StateProgram.Triple.given fun shadows => ?_
    cases same
    refine StateProgram.Triple.bind (logDecision_exact written calm
      (distinct_mutations nodup planned shadows)).attempt fun decision => StateProgram.Triple.given ?_
    rintro rfl
    refine StateProgram.Triple.bind (applyAll_exact nodup idle supports calm).attempt fun applied =>
      StateProgram.Triple.given ?_
    rintro rfl
    refine StateProgram.Triple.pure fun t holds => ⟨.inl ⟨reached, rfl, stores, united, fun shard key => ?_⟩,
      fun _ => rfl⟩
    rw [holds.channels shard]
    exact image?_appliedTo own shadows shard key

/-! ### The whole operation -/

/-- The participants of a queue and its watched keys. -/
def participantsOf (handle : DbHandle) (commands : List Command) (watched : List WatchToken) : List Nat :=
  handle.router.transactionParticipants commands (watched.map WatchToken.key)

/-- The time of the transaction: the clock of the first participant. -/
def frozenTime (handle : DbHandle) (commands : List Command) (watched : List WatchToken) (s : System) :
    Clock :=
  (s.channels ((participantsOf handle commands watched).headD 0)).settled.store.clock

/-- The quotas of the owners. -/
def quotas (s : System) (shard : Nat) : StoreConfig :=
  (s.channels shard).settled.store.config

/-- The owners hold the parts of `u`, which has room for what their quotas admit together. -/
structure Sharded (router : ShardRouter) (s : System) (u : Store) : Prop where
  sound : ∀ shard < router.count, Sound 0 (s.channels shard).settled.store
  images : ∀ key, (s.channels (router.shardFor key)).settled.store.image? key = u.image? key
  foreign : ∀ shard < router.count, ∀ key, router.shardFor key ≠ shard →
    (s.channels shard).settled.store.image? key = none
  union : Sound 0 u
  room : ((List.range router.count).map fun shard => (quotas s shard).maxDatasetBytes).sum ≤
    u.config.maxDatasetBytes

/-- Nothing stands in the way of the transaction: it is admitted, every control is answered, the log is
written, every owner is ready, and the watched keys are unchanged. -/
structure Serviceable (env : Environment) (handle : DbHandle) (commands : List Command)
    (watched : List WatchToken) (s : System) : Prop where
  entry : env.entry = .ok ()
  written : env.append = .written
  calm : ∀ point, env.faulty point = false
  fates : s.fates = []
  admits : s.gate.isOpen = true
  writable : handle.readonly = false
  ready : ∃ mode, Coordinator.mode handle = some mode ∧ ∀ shard < handle.router.count,
    (s.channels shard).settled.supportsCoordinatedMode mode = true ∧
      (s.channels shard).settled.coordinated = none
  unchanged : ∀ shard ∈ participantsOf handle commands watched,
    (s.channels shard).settled.store.watchesValidAt
      (watched.filter fun token => handle.router.shardFor token.key = shard)
      (frozenTime handle commands watched s).now = true

/-- The replies, and the entries of the owners, are those of the queue on the union. A command is refused
exactly when some owner's quota refuses its part; MGET answers every key in order, EXISTS counts
occurrences and DEL counts each removal once. -/
structure Refines (router : ShardRouter) (configs : Nat → StoreConfig) (u : Store) (commands : List Command)
    (outcome : Except DbError Reply × System) : Prop where
  replies : outcome.1 = .ok (.array (unionRun router configs u commands).2)
  images : ∀ key, (outcome.2.channels (router.shardFor key)).settled.store.image? key =
    (unionRun router configs u commands).1.image? key
  foreign : ∀ shard < router.count, ∀ key, router.shardFor key ≠ shard →
    (outcome.2.channels shard).settled.store.image? key = none
  refusals : ∀ before command after plan, commands = before ++ command :: after →
    router.planTransactionCommand command = .ok plan →
    ∃ reply, (unionRun router configs u (before ++ [command])).2 =
        (unionRun router configs u before).2 ++ [reply] ∧
      (reply = .error .outOfMemory ↔ refuses router configs (unionRun router configs u before).1 plan = true)
  mGet : ∀ before keys after, commands = before ++ .mGet keys :: after →
    (unionRun router configs u (before ++ [.mGet keys])).2 = (unionRun router configs u before).2 ++
      [.array (keys.map ((unionRun router configs u before).1.stringReply
        (unionRun router configs u before).1.clock.now))]
  exists_ : ∀ before keys after, commands = before ++ .exists keys :: after →
    (unionRun router configs u (before ++ [.exists keys])).2 = (unionRun router configs u before).2 ++
      [.integer (keys.countP ((unionRun router configs u before).1.isLive
        (unionRun router configs u before).1.clock.now) : Nat)]
  del : ∀ before keys after, commands = before ++ .del keys :: after →
    (unionRun router configs u (before ++ [.del keys])).2 = (unionRun router configs u before).2 ++
      [.integer (((unionRun router configs u before).1.liveKeys
        (unionRun router configs u before).1.clock.now keys).card : Nat)]

section Whole

variable {handle : DbHandle} {watched : List WatchToken} {s : System}

theorem planned_of_mapM (planned : commands.mapM router.planTransactionCommand = .ok plans) :
    router.Planned commands plans := by
  induction commands generalizing plans with
  | nil =>
    cases planned
    exact .nil
  | cons command rest ih =>
    rw [List.mapM_cons] at planned
    obtain ⟨plan, head, planned⟩ := bind_eq_ok planned
    obtain ⟨later, tail, same⟩ := bind_eq_ok planned
    cases same
    exact .cons head (ih tail)

theorem mapM_of_plannable (plannable : ∀ command ∈ commands, Plannable router command) :
    ∃ plans, commands.mapM router.planTransactionCommand = .ok plans := by
  induction commands with
  | nil => exact ⟨[], rfl⟩
  | cons command rest ih =>
    obtain ⟨plan, head⟩ := (plannable command List.mem_cons_self).planned
    obtain ⟨plans, tail⟩ := ih fun other member => plannable other (List.mem_cons_of_mem _ member)
    refine ⟨plan :: plans, ?_⟩
    rw [List.mapM_cons, head, tail]
    rfl

theorem participantsOf_covers (listed : command ∈ commands) (visited : key ∈ command.visitKeys) :
    handle.router.shardFor key ∈ participantsOf handle commands watched :=
  ShardRouter.shardFor_mem_participants
    (List.mem_append_right _ (List.mem_flatMap.mpr ⟨command, listed, visited⟩))

/-- The owners at the time of the transaction. -/
theorem unites_start (sharded : Sharded handle.router s u) (time : Clock)
    (rewatched : ∀ shard, Rewatched (s.channels shard).settled (base shard)) :
    Unites handle.router (quotas s) time (fun shard => (base shard).store.atClock time) (u.atClock time) := by
  have images : ∀ shard key, ((base shard).store.atClock time).image? key =
      (s.channels shard).settled.store.image? key := by
    intro shard key
    obtain ⟨watches, same⟩ := rewatched shard
    rw [same]
    rfl
  refine ⟨fun shard bound => ?_, fun _ _ => rfl, fun shard _ => ?_, fun key => ?_,
    fun shard bound key other => ?_, sharded.union.atClock time, rfl, sharded.room⟩
  · obtain ⟨watches, same⟩ := rewatched shard
    have sound := sharded.sound shard bound
    rw [same]
    exact ⟨sound.used, sound.quota, sound.good, sound.stamped, sound.sound⟩
  · obtain ⟨watches, same⟩ := rewatched shard
    rw [same]
    rfl
  · rw [images]
    exact sharded.images key
  · rw [images]
    exact sharded.foreign shard bound key other

/-- The operation, when nothing stands in its way. -/
theorem executeCoordinated_published (plannable : ∀ command ∈ commands, Plannable handle.router command)
    (serviceable : Serviceable env handle commands watched s) (sharded : Sharded handle.router s u) :
    Published handle.router (quotas s) (frozenTime handle commands watched s)
      (u.atClock (frozenTime handle commands watched s)) (participantsOf handle commands watched) commands
      ((executeCoordinated env handle commands watched).run s).1
      ((executeCoordinated env handle commands watched).run s).2 := by
  obtain ⟨plans, mapped⟩ := mapM_of_plannable plannable
  have planned := planned_of_mapM mapped
  obtain ⟨mode, chosen, ready⟩ := serviceable.ready
  have plan : handle.router.planTransaction commands (watched.map WatchToken.key) =
      .ok ⟨participantsOf handle commands watched, plans⟩ := by
    unfold ShardRouter.planTransaction
    rw [mapped]
    rfl
  have nodup : (participantsOf handle commands watched).Nodup := transactionParticipants_nodup _ _ _
  have memory : commands.any Command.isMemory = false :=
    List.any_eq_false.mpr fun command member => by simp [(plannable command member).ordinary]
  have connection : commands.any connectionOnly = false :=
    List.any_eq_false.mpr fun command member => by simp [(plannable command member).plain]
  have checked : Returns (· = s) checkAdmission () (· = s) := by
    rintro _ rfl
    exact ⟨_, congrArg (·, _) (if_pos serviceable.admits), rfl⟩
  have waited : Returns (· = s) (barrier env) () (· = s) := by
    rintro _ rfl
    exact ⟨_, congrArg (·, _) serviceable.entry, rfl⟩
  have entered : Returns (· = s) (enterBarrier env) ()
      (Settles fun shard => (s.channels shard).settled) := by
    refine checked.bind (waited.bind fun t same => ?_)
    obtain ⟨_, ran, rfl⟩ := checked t same
    exact ⟨_, ran, serviceable.fates, fun _ => rfl⟩
  have whole : StateProgram.Triple (· = s) (executeCoordinated env handle commands watched)
      (Published handle.router (quotas s) (frozenTime handle commands watched s)
        (u.atClock (frozenTime handle commands watched s)) (participantsOf handle commands watched)
        commands) := by
    unfold executeCoordinated
    rw [memory, if_neg Bool.false_ne_true, connection, if_neg Bool.false_ne_true, serviceable.writable,
      if_neg Bool.false_ne_true, plan]
    refine StateProgram.Triple.bind entered.attempt fun admitted => StateProgram.Triple.given ?_
    rintro rfl
    unfold run
    rw [chosen]
    obtain ⟨base, rewatched, preflight⟩ :=
      preflight_exact ⟨participantsOf handle commands watched, plans⟩ ready nodup serviceable.unchanged
    refine StateProgram.Triple.bind preflight.attempt fun checked => StateProgram.Triple.given ?_
    rintro rfl
    have same : ∀ shard, (base shard).supportsCoordinatedMode mode =
          (s.channels shard).settled.supportsCoordinatedMode mode ∧
        (base shard).coordinated = (s.channels shard).settled.coordinated := by
      intro shard
      obtain ⟨watches, same⟩ := rewatched shard
      rw [same]
      exact ⟨by cases mode <;> rfl, rfl⟩
    have unites := unites_start sharded (frozenTime handle commands watched s) rewatched
    have publishes : StateProgram.Triple (Settles base)
        (publish env ⟨participantsOf handle commands watched, plans⟩ mode
          (frozenTime handle commands watched s)) _ :=
      publish_exact serviceable.written serviceable.calm planned plannable nodup
        (fun _ => ShardRouter.transactionParticipants_lt) (fun _ listed _ => participantsOf_covers listed)
        (fun shard bound =>
          ⟨(same shard).1.trans (ready shard bound).1, (same shard).2.trans (ready shard bound).2⟩)
        (fun shard bound => (unites.sound shard bound).atClock (base shard).store.clock) unites
    refine StateProgram.Triple.bind publishes fun result => ?_
    obtain ⟨value, complete⟩ := result
    cases complete with
    | true => exact StateProgram.Triple.pure fun t holds => holds.1
    | false =>
      rintro t ⟨published, completes⟩
      rcases published with ⟨reached, _⟩ | fails
      · cases completes reached
      · exact .inr fails
  exact whole s rfl

/-- **A coordinated EXEC acts like an EXEC on the union of the owners, exactly when every command of the
queue is sent to a participant.** -/
theorem executeCoordinated_refines (plannable : ∀ command ∈ commands, Plannable handle.router command)
    (serviceable : Serviceable env handle commands watched s) (sharded : Sharded handle.router s u) :
    Refines handle.router (quotas s) (u.atClock (frozenTime handle commands watched s)) commands
        ((executeCoordinated env handle commands watched).run s) ↔
      ∀ command ∈ commands, command.visitKeys = [] →
        command = .unwatch ∨ 0 ∈ participantsOf handle commands watched := by
  have published := executeCoordinated_published plannable serviceable sharded
  constructor
  · intro refines
    rcases published with ⟨reached, _⟩ | ⟨_, error, failed⟩
    · exact reached
    · rw [refines.replies] at failed
      cases failed
  · intro reached
    rcases published with ⟨_, replies, stores, united, images⟩ | ⟨fails, _⟩
    · have prefixes : ∀ before command after, commands = before ++ command :: after →
          Plannable handle.router command ∧ ∃ stores, Unites handle.router (quotas s)
            (frozenTime handle commands watched s) stores (unionRun handle.router (quotas s)
              (u.atClock (frozenTime handle commands watched s)) before).1 := by
        intro before command after split
        refine ⟨plannable command (by rw [split]; simp), ?_⟩
        have started := unites_start sharded (frozenTime handle commands watched s) fun shard =>
          (⟨(s.channels shard).settled.store.watches, rfl⟩ : Rewatched _ (s.channels shard).settled)
        exact unites_queue started fun other early =>
          plannable other (by rw [split]; exact List.mem_append_left _ early)
      refine ⟨replies, fun key => ?_, fun shard bound key other => ?_,
        fun before command after plan split plans => ?_, fun before keys after split => ?_,
        fun before keys after split => ?_, fun before keys after split => ?_⟩
      · rw [images, united.images]
      · rw [images, united.foreign shard bound key other]
      · obtain ⟨fits, stores, united⟩ := prefixes before command after split
        obtain ⟨reply, v, _, step, refused, _⟩ := unites_step united fits plans
        refine ⟨reply, ?_, ?_⟩
        · rw [unionRun_append]
          exact congrArg Prod.snd (step _)
        · rw [← refused, Reply.refused_iff]
      · obtain ⟨plan, plans⟩ := (prefixes before _ after split).1.planned
        obtain ⟨list, splits, _⟩ := splits_mGet plans
        rw [unionRun_append, unionStep_of_splits plans splits run_queued_mGet fun _ _ => rfl]
      · obtain ⟨plan, plans⟩ := (prefixes before _ after split).1.planned
        obtain ⟨list, splits, _⟩ := splits_exists plans
        rw [unionRun_append, unionStep_of_splits plans splits run_queued_exists fun _ _ => rfl]
      · obtain ⟨plan, plans⟩ := (prefixes before _ after split).1.planned
        obtain ⟨list, splits, _⟩ := splits_del plans
        rw [unionRun_append, unionStep_of_splits plans splits run_queued_del fun _ _ => rfl]
    · exact absurd reached fails

end Whole

/-- Three empty owners of one composed log. -/
def trio : DbHandle := ⟨⟨3, by decide, by decide⟩, some ⟨7, true⟩, false⟩

theorem pair_serviceable (commands : List Command) :
    Serviceable ⟨.ok (), .written, fun _ => false⟩ trio commands [] pair where
  entry := rfl
  written := rfl
  calm := fun _ => rfl
  fates := rfl
  admits := rfl
  writable := rfl
  ready := ⟨.composed 7, rfl, fun _ _ => ⟨rfl, rfl⟩⟩
  unchanged := fun _ _ => rfl

theorem pair_sharded : Sharded trio.router pair
    (Store.withConfig ⟨3000, by decide, by decide⟩ ⟨0, 0, 1000000000⟩ 0) where
  sound := fun _ _ => (valid_withConfig ..).sound
  images := fun _ => rfl
  foreign := fun _ _ _ _ => rfl
  union := (valid_withConfig ..).sound
  room := by decide

theorem plannable_of_decide
    (ordinary : commands.all fun command => !command.isMemory && !connectionOnly command &&
      (router.planTransactionCommand command).isOk && command.visitKeys.length ≤ 1) :
    ∀ command ∈ commands, Plannable router command := by
  intro command member
  have holds := List.all_eq_true.mp ordinary command member
  simp only [Bool.and_eq_true, Bool.not_eq_true', decide_eq_true_eq] at holds
  obtain ⟨⟨⟨ordinary, plain⟩, planned⟩, few⟩ := holds
  refine ⟨ordinary, plain, ?_, ?_⟩
  · cases found : router.planTransactionCommand command with
    | ok plan => exact ⟨plan, rfl⟩
    | error error =>
      rw [found] at planned
      cases planned
  · have small : (1 : Int) ≤ Machine.i64Max := by decide
    omega

/-- Two keys of owners 1 and 2 are written as on one store. -/
theorem executeCoordinated_refines_pair :
    let commands : List Command := [.set [97] [49], .set [103] [50]]
    Refines trio.router (quotas pair)
      ((Store.withConfig ⟨3000, by decide, by decide⟩ ⟨0, 0, 1000000000⟩ 0).atClock
        (frozenTime trio commands [] pair)) commands
      ((executeCoordinated ⟨.ok (), .written, fun _ => false⟩ trio commands []).run pair) :=
  (executeCoordinated_refines (plannable_of_decide (by decide +kernel)) (pair_serviceable _) pair_sharded).mpr
    (by decide +kernel)

/-- A PING in the same queue is sent to owner 0, which has not begun: the whole EXEC ends with an error. -/
theorem executeCoordinated_ping_stops :
    let commands : List Command := [.set [97] [49], .set [103] [50], .ping none]
    (∀ command ∈ commands, Plannable trio.router command) ∧
      Serviceable ⟨.ok (), .written, fun _ => false⟩ trio commands [] pair ∧
      (∃ error, ((executeCoordinated ⟨.ok (), .written, fun _ => false⟩ trio commands []).run pair).1 =
        .error error) ∧
      ¬ Refines trio.router (quotas pair)
        ((Store.withConfig ⟨3000, by decide, by decide⟩ ⟨0, 0, 1000000000⟩ 0).atClock
          (frozenTime trio commands [] pair)) commands
        ((executeCoordinated ⟨.ok (), .written, fun _ => false⟩ trio commands []).run pair) := by
  intro commands
  have plannable : ∀ command ∈ commands, Plannable trio.router command :=
    plannable_of_decide (by decide +kernel)
  have missed : ¬ Reached (participantsOf trio commands []) commands := by
    unfold Reached
    decide +kernel
  have published := executeCoordinated_published plannable (pair_serviceable commands) pair_sharded
  obtain ⟨error, failed⟩ := (published.resolve_left fun reached => missed reached.1).2
  refine ⟨plannable, pair_serviceable commands, ⟨error, failed⟩, fun refines => ?_⟩
  rw [refines.replies] at failed
  cases failed

end Coordinator

end Sider
