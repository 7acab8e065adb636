/-
**Admission.**

Every operation on the database asks for admission: transactions, requests and snapshots before they wait
for the barrier and again once they hold it, the replica operations and the expiration tick only once they
hold it. A publication that is not completed closes admission, and nothing opens it again.

* `Shut` — every operation is refused and changes nothing.
* `closed_run` — once admission is closed, whatever is asked for later is refused, in any order.
* `Reachable.settled` — while admission is open, no owner is left with tentative state between operations.
-/

import Sider.Storage.CoordinatorPhases
import Sider.Storage.Frozen

namespace Sider

open FailingProgram Store

variable {s t : System} {α : Type} {env : Environment}

namespace Coordinator

/-! ### The other operations -/

/-- The entry of the replica operations and of the expiration tick. -/
def enterReplica (env : Environment) : CoordM Unit := do
  barrier env
  checkAdmission

/-- What an admitted operation answers, and what it does to the stores and to the log. -/
structure Outcome (α : Type) where
  answer : Except DbError α
  stores : Nat → Store → Store
  log : List ResolvedBatch → List ResolvedBatch

def Outcome.run (outcome : Outcome α) : StateM System (Except DbError α) := fun s =>
  (outcome.answer, { s with
    channels := fun shard => ⟨{ (s.channels shard).owner with
      store := outcome.stores shard (s.channels shard).owner.store }, (s.channels shard).queue⟩
    log := outcome.log s.log })

/-- A request of one owner: a command, a batch, a transaction or a WATCH. INFO and the replication status
are admitted in the same way and change nothing. -/
def request (env : Environment) (outcome : Outcome Reply) : StateM System (Except DbError Reply) :=
  admitted (enterBarrier env) outcome.run

/-- The images of all shards. -/
def images (router : ShardRouter) : StateM System (List Mutation) := do
  let s ← get
  pure (frozen router fun shard => (s.channels shard).owner.store)

/-- Snapshots and compactions freeze the database. -/
def freeze (env : Environment) (router : ShardRouter) : StateM System (Except DbError (List Mutation)) :=
  admitted (enterBarrier env) do pure (.ok (← images router))

/-- An outcome under a publication. -/
def published (outcome : Outcome Unit) (complete : Bool) : StateM System (Except DbError Unit) :=
  guarded do
    let answer ← outcome.run
    pure (answer, complete)

/-- A snapshot or a batch of the primary. -/
def applyReplica (env : Environment) (outcome : Outcome Unit) (complete : Bool) :
    StateM System (Except DbError Unit) :=
  admitted (enterReplica env) (published outcome complete)

/-- The frozen images become the first snapshot of a new primary. -/
def promoteReplica (env : Environment) (router : ShardRouter) (outcome : List Mutation → Outcome Unit)
    (complete : Bool) : StateM System (Except DbError Unit) :=
  admitted (enterBarrier env) do published (outcome (← images router)) complete

def expirationTick (env : Environment) (outcome : Outcome Unit) : StateM System (Except DbError Unit) :=
  admitted (enterReplica env) outcome.run

/-! ### Runs -/

/-- What may happen next: an operation, an owner handling controls left in its queue, or other fates for
the controls to come. -/
inductive Operation where
  | execute (env : Environment) (handle : DbHandle) (commands : List Command) (watched : List WatchToken)
  | watch (env : Environment) (handle : DbHandle) (keys : List Bytes)
  | request (env : Environment) (outcome : Outcome Reply)
  | freeze (env : Environment) (router : ShardRouter)
  | applyReplica (env : Environment) (outcome : Outcome Unit) (complete : Bool)
  | promoteReplica (env : Environment) (router : ShardRouter) (outcome : List Mutation → Outcome Unit)
      (complete : Bool)
  | expirationTick (env : Environment) (outcome : Outcome Unit)
  | handled (shard : Nat) (n : Nat)
  | schedule (fates : List Fate)

def perform (s : System) : Operation → System
  | .execute env handle commands watched => ((executeCoordinated env handle commands watched).run s).2
  | .watch env handle keys => ((watchCoordinated env handle keys).run s).2
  | .request env outcome => ((request env outcome).run s).2
  | .freeze env router => ((freeze env router).run s).2
  | .applyReplica env outcome complete => ((applyReplica env outcome complete).run s).2
  | .promoteReplica env router outcome complete => ((promoteReplica env router outcome complete).run s).2
  | .expirationTick env outcome => ((expirationTick env outcome).run s).2
  | .handled shard n => s.withChannel shard ((s.channels shard).advance n)
  | .schedule fates => { s with fates := fates }

/-! ### Closed admission -/

/-- The operation ends with an error and changes nothing. -/
def Refuses (operation : StateM System (Except DbError α)) (s : System) : Prop :=
  ∃ error, operation.run s = (.error error, s)

/-- A transaction may also be refused with an error reply, before it asks for admission. -/
def denied : Except DbError Reply → Bool
  | .error _ => true
  | .ok reply => reply.isError

/-- Every operation is refused and changes nothing. -/
structure Shut (s : System) : Prop where
  execute : ∀ env handle commands watched, ∃ answer, denied answer = true ∧
    (executeCoordinated env handle commands watched).run s = (answer, s)
  watch : ∀ env handle keys, Refuses (watchCoordinated env handle keys) s
  request : ∀ env outcome, Refuses (request env outcome) s
  freeze : ∀ env router, Refuses (freeze env router) s
  applyReplica : ∀ env outcome complete, Refuses (applyReplica env outcome complete) s
  promoteReplica : ∀ env router outcome complete, Refuses (promoteReplica env router outcome complete) s
  expirationTick : ∀ env outcome, Refuses (expirationTick env outcome) s

theorem enterReplica_guards (env : Environment) : Guards (enterReplica env) := fun pre =>
  Triple.bind (barrier_triple env pre) fun _ => checkAdmission_guards pre

theorem refuses_run {operation : StateM System (Except DbError α)} (refuses : Refuses operation s) :
    (operation.run s).2 = s := by
  obtain ⟨error, refused⟩ := refuses
  rw [refused]

section Closed

variable (closed : s.gate.isOpen = false)

include closed

theorem admitted_refuses {entry : CoordM Unit} (guards : Guards entry)
    (operation : StateM System (Except DbError α)) : Refuses (admitted entry operation) s := by
  have refused : StateProgram.Triple (· = s) (admitted entry operation)
      fun answer t => (∃ error, answer = .error error) ∧ t = s := by
    refine admitted_triple guards (fun error t same => ⟨⟨error, rfl⟩, same⟩) ?_
    rintro _ ⟨opened, rfl⟩
    rw [closed] at opened
    cases opened
  obtain ⟨⟨error, answer⟩, same⟩ := refused s rfl
  exact ⟨error, Prod.ext answer same⟩

theorem executeCoordinated_denied (env : Environment) (handle : DbHandle) (commands : List Command)
    (watched : List WatchToken) : ∃ answer, denied answer = true ∧
      (executeCoordinated env handle commands watched).run s = (answer, s) := by
  unfold executeCoordinated
  split
  · exact ⟨_, rfl, rfl⟩
  split
  · exact ⟨_, rfl, rfl⟩
  split
  · exact ⟨_, rfl, rfl⟩
  cases handle.router.planTransaction commands (watched.map WatchToken.key) with
  | error error => exact ⟨_, rfl, rfl⟩
  | ok plan =>
    obtain ⟨error, refused⟩ := admitted_refuses closed (enterBarrier_guards env) (run env handle plan watched)
    exact ⟨_, rfl, refused⟩

theorem watchCoordinated_refuses (env : Environment) (handle : DbHandle) (keys : List Bytes) :
    Refuses (watchCoordinated env handle keys) s := by
  unfold watchCoordinated
  cases handle.composedAof with
  | none => exact ⟨_, rfl⟩
  | some aof =>
    dsimp only
    split
    · exact ⟨_, rfl⟩
    · exact admitted_refuses closed (enterBarrier_guards env) _

theorem shut_of_closed : Shut s where
  execute := executeCoordinated_denied closed
  watch := watchCoordinated_refuses closed
  request env _ := admitted_refuses closed (enterBarrier_guards env) _
  freeze env _ := admitted_refuses closed (enterBarrier_guards env) _
  applyReplica env _ _ := admitted_refuses closed (enterReplica_guards env) _
  promoteReplica env _ _ _ := admitted_refuses closed (enterBarrier_guards env) _
  expirationTick env _ := admitted_refuses closed (enterReplica_guards env) _

/-- From closed admission only controls that still wait are handled. -/
theorem closed_step (operation : Operation) :
    (perform s operation).gate = s.gate ∧ (perform s operation).log = s.log ∧
      ∀ shard, ((perform s operation).channels shard).settled = (s.channels shard).settled := by
  have shut := shut_of_closed closed
  have same : ∀ {t}, t = s → t.gate = s.gate ∧ t.log = s.log ∧
      ∀ shard, (t.channels shard).settled = (s.channels shard).settled := by
    rintro _ rfl
    exact ⟨rfl, rfl, fun _ => rfl⟩
  cases operation with
  | execute env handle commands watched =>
    obtain ⟨answer, _, refused⟩ := shut.execute env handle commands watched
    exact same (congrArg Prod.snd refused)
  | watch env handle keys => exact same (refuses_run (shut.watch env handle keys))
  | request env outcome => exact same (refuses_run (shut.request env outcome))
  | freeze env router => exact same (refuses_run (shut.freeze env router))
  | applyReplica env outcome complete =>
    exact same (refuses_run (shut.applyReplica env outcome complete))
  | promoteReplica env router outcome complete =>
    exact same (refuses_run (shut.promoteReplica env router outcome complete))
  | expirationTick env outcome => exact same (refuses_run (shut.expirationTick env outcome))
  | schedule fates => exact ⟨rfl, rfl, fun _ => rfl⟩
  | handled shard n =>
    refine ⟨rfl, rfl, fun other => ?_⟩
    show (if other = shard then _ else _ : Channel).settled = _
    split_ifs with here
    · rw [here, Channel.settled_advance]
    · rfl

/-- **Nothing is admitted after admission is closed**: in whatever order operations arrive, each is refused,
and the log and the owners stay as they are. -/
theorem closed_run (operations : List Operation) :
    let t := operations.foldl perform s
    t.gate.isOpen = false ∧ t.log = s.log ∧
      (∀ shard, (t.channels shard).settled = (s.channels shard).settled) ∧ Shut t := by
  induction operations generalizing s with
  | nil => exact ⟨closed, rfl, fun _ => rfl, shut_of_closed closed⟩
  | cons operation rest ih =>
    obtain ⟨gate, log, settled⟩ := closed_step closed operation
    obtain ⟨still, sameLog, same, shut⟩ := ih (gate ▸ closed)
    exact ⟨still, sameLog.trans log, fun shard => (same shard).trans (settled shard), shut⟩

end Closed

/-! ### Open admission -/

/-- Every channel is quiet. -/
def Calm (s : System) : Prop := ∀ shard, (s.channels shard).Quiet

/-- Every channel is quiet while admission is open. -/
def Settled (s : System) : Prop := s.gate.isOpen = true → Calm s

/-- The systems of all runs of all operations. -/
inductive Reachable : System → Prop
  | start {s : System} (fresh : ∀ shard, (s.channels shard).queue = [] ∧
      (s.channels shard).owner.coordinated = none) : Reachable s
  | step {s : System} (operation : Operation) : Reachable s → Reachable (perform s operation)

theorem Calm.holds (calm : Calm s) :
    Resting s.log s.gate (fun shard => (s.channels shard).owner.store) s :=
  ⟨rfl, rfl, fun shard => ⟨(calm shard).settled.2, fun _ => calm shard⟩⟩

theorem Ended.calm {log : List ResolvedBatch} {base : Nat → Store} {mode : Mode} {participants : List Nat}
    (ended : Ended log base mode participants t) : Calm t := by
  rcases ended with kept | ⟨owners, _, applied⟩
  · exact fun shard => (kept.2.2 shard).quiet id
  · exact fun shard => (applied.2.2 shard).quiet

theorem Outcome.calm (outcome : Outcome α) : StateProgram.Triple Calm outcome.run fun _ => Calm :=
  fun _ calm shard => ⟨(calm shard).idle, (calm shard).inert⟩

theorem published_settled (outcome : Outcome Unit) (complete : Bool) :
    StateProgram.Triple Calm (published outcome complete) fun _ => Settled := by
  refine (guarded_triple (StateProgram.Triple.bind outcome.calm fun _ =>
    StateProgram.Triple.pure fun _ calm _ => calm)).weaken (fun _ holds => holds) fun _ t ends opened => ?_
  rcases ends with closed | calm
  · rw [closed] at opened
    cases opened
  · exact calm

/-- What an operation keeps while admission is open, it keeps. -/
theorem admitted_settled {entry : CoordM Unit} (guards : Guards entry)
    {operation : StateM System (Except DbError α)}
    (keeps : StateProgram.Triple Calm operation fun _ => Settled) :
    StateProgram.Triple Settled (admitted entry operation) fun _ => Settled :=
  admitted_triple guards (fun _ _ settled => settled) fun t holds => keeps t (holds.2 holds.1)

/-- **Any operation leaves every channel quiet, unless admission is closed.** -/
theorem Settled.perform (settled : Settled s) (operation : Operation) : Settled (perform s operation) := by
  cases opened : s.gate.isOpen with
  | false =>
    intro still
    rw [(closed_step opened operation).1, opened] at still
    cases still
  | true =>
    have calm := settled opened
    have frozen : ∀ {router}, StateProgram.Triple Calm (images router) fun _ => Calm := fun _ calm => calm
    cases operation with
    | execute env handle commands watched =>
      intro still
      rcases executeCoordinated_triple env handle commands watched s calm.holds with
        closed | kept | ⟨_, _, _, ended⟩
      · exact Bool.noConfusion (closed.symm.trans still)
      · exact fun shard => (kept.2.2 shard).quiet id
      · exact ended.calm
    | watch env handle keys =>
      intro still
      rcases watchCoordinated_triple env handle keys s ⟨rfl, rfl, calm⟩ with closed | quiet
      · exact Bool.noConfusion (closed.symm.trans still)
      · exact quiet
    | request env outcome =>
      exact admitted_settled (enterBarrier_guards env) (fun t calm _ => outcome.calm t calm) s settled
    | freeze env router =>
      exact admitted_settled (enterBarrier_guards env)
        (StateProgram.Triple.bind frozen fun _ => StateProgram.Triple.pure fun _ calm _ => calm) s settled
    | applyReplica env outcome complete =>
      exact admitted_settled (enterReplica_guards env) (published_settled outcome complete) s settled
    | promoteReplica env router outcome complete =>
      exact admitted_settled (enterBarrier_guards env)
        (StateProgram.Triple.bind frozen fun _ => published_settled _ complete) s settled
    | expirationTick env outcome =>
      exact admitted_settled (enterReplica_guards env) (fun t calm _ => outcome.calm t calm) s settled
    | handled shard n =>
      intro _ other
      show (if other = shard then _ else _ : Channel).Quiet
      split_ifs
      · exact (calm shard).advance n
      · exact calm other
    | schedule fates => exact fun _ => calm

theorem Reachable.settled (reachable : Reachable s) : Settled s := by
  induction reachable with
  | start fresh =>
    intro _ shard
    obtain ⟨empty, idle⟩ := fresh shard
    exact ⟨idle, fun sent member => by rw [empty] at member; cases member⟩
  | step operation _ ih => exact ih.perform operation

end Coordinator

end Sider
