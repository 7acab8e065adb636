/-
**The multi-owner coordinator.**

The coordinator sends controls to the owners and waits for each answer. An owner handles its controls
in the order they were sent, so an owner is kept here with the controls it has not handled yet. What
becomes of a control is its `Fate`: it is answered; it is refused and never queued; or it is queued and
the wait ends first, with the owner having handled some of its queue by then.

`run` is the whole of EXEC: probe, clock, watch check, tentative preparation, one log record, and the
application by every owner. `runWatch` is WATCH over several owners. A publication that is not
completed closes admission, which every operation checks before it waits for the barrier and again once
it holds it.
-/

import Mathlib.Data.List.Sort
import Sider.Lib.FailingProgram
import Sider.Storage.Worker
import Sider.Storage.Routing

namespace Sider

open Store

/-! ### Equality of replies -/

mutual

def Reply.beq : Reply → Reply → Bool
  | .pong, .pong => true
  | .ok, .ok => true
  | .bulk left, .bulk right => left = right
  | .integer left, .integer right => left = right
  | .array left, .array right => Reply.beqAll left right
  | .nullArray, .nullArray => true
  | .error left, .error right => left = right
  | _, _ => false

def Reply.beqAll : List Reply → List Reply → Bool
  | [], [] => true
  | left :: lefts, right :: rights => Reply.beq left right && Reply.beqAll lefts rights
  | _, _ => false

end

def Reply.isError : Reply → Bool
  | .error _ => true
  | _ => false

/-! ### Owners -/

/-- What an owner knows of its log: the writer, and whether it is the composed mixed profile. -/
structure AofHandle where
  writer : Nat
  isComposedLegacyMixed : Bool
  deriving DecidableEq, Repr

inductive Mode where
  | inMemory
  | composed (writer : Nat)
  deriving DecidableEq, Repr

def Mode.durable : Mode → Bool
  | .composed _ => true
  | .inMemory => false

inductive Control where
  | probe (mode : Mode)
  | prepareWatch (mode : Mode) (keys : List Bytes)
  | applyWatch (mode : Mode) (prepared : Prepared) (keys : List Bytes)
  | clock
  | checkWatches (tokens : List WatchToken) (time : Clock)
  | begin (mode : Mode) (keys : List Bytes) (time : Clock)
  | candidate (command : Command)
  | accept (candidate : Prepared)
  | sealOwner
  | apply (mode : Mode) (prepared : Prepared)
  | abort

inductive Answer where
  | flag (value : Bool)
  | time (value : Clock)
  | done (value : Except DbError Unit)
  | prepared (value : Except DbError Prepared)
  | reply (value : Except DbError Reply)
  | tokens (value : Except DbError (List WatchToken))

namespace Answer

def toFlag : Answer → Except DbError Bool
  | flag value => .ok value
  | _ => .error .unavailable

def toTime : Answer → Except DbError Clock
  | time value => .ok value
  | _ => .error .unavailable

def toDone : Answer → Except DbError Unit
  | done value => value
  | _ => .error .unavailable

def toPrepared : Answer → Except DbError Prepared
  | prepared value => value
  | _ => .error .unavailable

def toReply : Answer → Except DbError Reply
  | reply value => value
  | _ => .error .unavailable

def toTokens : Answer → Except DbError (List WatchToken)
  | tokens value => value
  | _ => .error .unavailable

end Answer

/-- One owner; `replication` says whether its role is read-only, if it has one. -/
structure Owner where
  store : Store
  replication : Option Bool
  aof : Option AofHandle
  coordinated : Option OwnerTransaction

namespace Owner

def supportsCoordinatedMode (o : Owner) : Mode → Bool
  | .inMemory => o.replication.isNone && o.aof.isNone
  | .composed expected =>
    !o.replication.any (· = true) &&
      o.aof.any fun actual => actual.isComposedLegacyMixed && actual.writer = expected

/-- What an owner answers to a control, and its next state. -/
def coordinationControl (o : Owner) : Control → Answer × Owner
  | .probe mode => (.flag (o.supportsCoordinatedMode mode && o.coordinated.isNone), o)
  | .prepareWatch mode keys =>
    if o.supportsCoordinatedMode mode && o.coordinated.isNone then
      (.prepared (.ok (o.store.prepare (.exists keys))), o)
    else (.prepared (.error .unavailable), o)
  | .applyWatch mode prepared keys =>
    if o.supportsCoordinatedMode mode && o.coordinated.isNone && !prepared.reply.isError then
      let (tokens, store) := (o.store.apply prepared).watch keys
      (.tokens (.ok tokens), { o with store := store })
    else (.tokens (.error .unavailable), o)
  | .clock => (.time o.store.clock, o)
  | .checkWatches tokens time =>
    (.flag (o.store.watchesValidAt tokens time.now),
      { o with store := { o.store with watches := tokens.foldl Registry.drop o.store.watches } })
  | .begin mode keys time =>
    if !o.supportsCoordinatedMode mode || o.coordinated.isSome then (.done (.error .unavailable), o)
    else (.done (.ok ()), { o with coordinated := some (OwnerTransaction.start o.store keys time) })
  | .candidate command =>
    match o.coordinated with
    | some owner => (.prepared (.ok (owner.prepareCandidate command)), o)
    | none => (.prepared (.error .unavailable), o)
  | .accept candidate =>
    match o.coordinated with
    | some owner =>
      (.reply (.ok candidate.reply), { o with coordinated := some (owner.acceptCandidate candidate) })
    | none => (.reply (.error .unavailable), o)
  | .sealOwner =>
    match o.coordinated with
    | some owner => (.prepared (.ok (owner.sealed o.store [])), { o with coordinated := none })
    | none => (.prepared (.error .unavailable), o)
  | .apply mode prepared =>
    if !o.supportsCoordinatedMode mode || o.coordinated.isSome then (.done (.error .unavailable), o)
    else (.done (.ok ()), { o with store := o.store.apply prepared })
  | .abort => (.done (.ok ()), { o with coordinated := none })

def handleAll (o : Owner) (controls : List Control) : Owner :=
  controls.foldl (fun o control => (o.coordinationControl control).2) o

end Owner

/-- An owner and the controls it has yet to handle. -/
structure Channel where
  owner : Owner
  queue : List Control

namespace Channel

/-- The owner once it has handled its queue. -/
def settled (c : Channel) : Owner :=
  c.owner.handleAll c.queue

/-- The owner handles the first `n` controls of its queue. -/
def advance (c : Channel) (n : Nat) : Channel :=
  ⟨c.owner.handleAll (c.queue.take n), c.queue.drop n⟩

end Channel

/-! ### The coordinator's side -/

/-- What becomes of one control. -/
inductive Fate where
  | answered
  | refused (error : DbError)
  | silent (handled : Nat) (error : DbError)

/-- Open until a publication is dropped before it is complete. -/
structure Admission where
  isOpen : Bool
  deriving DecidableEq, Repr

namespace Admission

def check (admission : Admission) : Except DbError Unit :=
  if admission.isOpen then .ok () else .error .unavailable

def close (_ : Admission) : Admission := ⟨false⟩

end Admission

/-- Owners by shard, the log, admission, and the fates of the controls to come. -/
structure System where
  channels : Nat → Channel
  log : List ResolvedBatch
  gate : Admission
  fates : List Fate

/-- Coordinator code that can stop with an error. -/
abbrev CoordM := ExceptT DbError (StateM System)

def System.withChannel (s : System) (shard : Nat) (channel : Channel) : System :=
  { s with channels := fun other => if other = shard then channel else s.channels other }

namespace CoordM

/-- Send a control and wait for its answer. -/
def control (shard : Nat) (sent : Control) : CoordM Answer := fun s =>
  let channel := s.channels shard
  let later := { s with fates := s.fates.tail }
  match s.fates.headD .answered with
  | .answered =>
    let (answer, owner) := channel.settled.coordinationControl sent
    (.ok answer, later.withChannel shard ⟨owner, []⟩)
  | .refused error => (.error error, later)
  | .silent handled error =>
    (.error error, later.withChannel shard
      (Channel.advance ⟨channel.owner, channel.queue ++ [sent]⟩ handled))

/-- Send a control and read the value out of its answer. -/
def ask {α : Type} (read : Answer → Except DbError α) (shard : Nat) (sent : Control) : CoordM α := do
  match read (← control shard sent) with
  | .ok value => pure value
  | .error error => throw error

end CoordM

/-- Injected lifecycle faults, and the deadlines that may not be representable. -/
inductive FaultPoint where
  | mixedBeforeAppend
  | applyDeadline
  | mixedBeforeFirstApply
  | mixedAfterFirstApply
  | mixedAfterAllApply
  deriving DecidableEq, Repr

/-- What the log append ends in; a failed one may have reached the file. -/
inductive AppendFate where
  | written
  | limit
  | failed (recorded : Bool)
  deriving DecidableEq, Repr

/-- What the coordinator does not control: the wait for exclusion, the log and the faults. -/
structure Environment where
  entry : Except DbError Unit
  append : AppendFate
  faulty : FaultPoint → Bool

/-- The database handle of the coordinator. -/
structure DbHandle where
  router : ShardRouter
  composedAof : Option AofHandle
  readonly : Bool

namespace Coordinator

open CoordM

/-- The mode of the handle, if it has one. -/
def mode (handle : DbHandle) : Option Mode :=
  match handle.composedAof with
  | some aof => if aof.isComposedLegacyMixed then some (.composed aof.writer) else none
  | none => some .inMemory

/-- Mutations of several owners in key order. -/
def sortedByKey (mutations : List Mutation) : List Mutation :=
  mutations.insertionSort fun left right => left.key ≤ right.key

/-- Two neighbours share a key. -/
def repeatedKey : List Mutation → Bool
  | first :: second :: rest => first.key = second.key || repeatedKey (second :: rest)
  | _ => false

/-- Append one record; a verified rejection is an answer. -/
def append (env : Environment) (batch : ResolvedBatch) : CoordM (Option Reply) := do
  let record : System → System := fun s => { s with log := s.log ++ [batch] }
  match env.append with
  | .written => do
    modify record
    pure none
  | .limit => pure (some (.error .aofRecordLimit))
  | .failed recorded => do
    modify (if recorded then record else id)
    throw .unavailable

/-! ### EXEC -/

/-- The keys an owner copies: those of its fragments, once each and in byte order. -/
def ownerKeys (plans : List CommandPlan) (owner : Nat) : List Bytes :=
  (OrdMap.ofKeys (((plans.flatMap CommandPlan.fragments).filter (·.owner = owner)).flatMap
    fun fragment => fragment.command.visitKeys)).keys

/-- The candidate of one fragment. -/
def candidateOf (fragment : Fragment) : CoordM (Nat × Prepared) := do
  let candidate ← ask Answer.toPrepared fragment.owner (.candidate fragment.command)
  pure (fragment.owner, candidate)

/-- Accept one candidate, which must answer as it was prepared. -/
def acceptOne (candidate : Nat × Prepared) : CoordM Unit := do
  let accepted ← ask Answer.toReply candidate.1 (.accept candidate.2)
  if accepted.beq candidate.2.reply then pure () else throw .unavailable

/-- A queued UNWATCH has nothing to prepare. -/
def isUnwatch : List Fragment → Bool
  | [⟨_, .unwatch⟩] => true
  | _ => false

/-- Prepare every fragment of a command, and accept them all unless a joint command is refused. -/
def prepareCommand (planned : CommandPlan) : CoordM Reply := do
  if isUnwatch planned.fragments then pure .ok
  else
    let prepared ← planned.fragments.mapM candidateOf
    match planned.reply.assemble (prepared.map fun candidate => candidate.2.reply) with
    | .error _ => throw .unavailable
    | .ok assembled =>
      if 1 < prepared.length && assembled.isError then pure assembled
      else do
        prepared.forM acceptOne
        pure assembled

def sealOne (owner : Nat) : CoordM (Nat × Prepared) := do
  let prepared ← ask Answer.toPrepared owner .sealOwner
  pure (owner, prepared)

/-- Tentative preparation by every participant. -/
def prepare (plan : TransactionPlan) (mode : Mode) (time : Clock) :
    CoordM (List Reply × List (Nat × Prepared)) := do
  plan.participants.forM fun owner =>
    ask Answer.toDone owner (.begin mode (ownerKeys plan.commands owner) time)
  let replies ← plan.commands.mapM prepareCommand
  let owners ← plan.participants.mapM sealOne
  pure (replies, owners)

def abortAll (participants : List Nat) : CoordM Unit :=
  participants.forM fun owner => ask Answer.toDone owner .abort

/-- The mutations of all owners, in key order. -/
def mergedMutations (owners : List (Nat × Prepared)) : List Mutation :=
  sortedByKey (owners.flatMap fun owner => owner.2.batch.mutations)

/-- Append the one record of the transaction. -/
def logDecision (env : Environment) (mode : Mode) (owners : List (Nat × Prepared)) :
    CoordM (Option Reply) :=
  if mode.durable then
    if env.faulty .mixedBeforeAppend then throw .unavailable
    else
      let mutations := mergedMutations owners
      if repeatedKey mutations then throw .unavailable
      else if mutations.isEmpty then pure none
      else append env ⟨.client, mutations⟩
  else pure none

/-- One owner applies its part. -/
def applyOne (env : Environment) (mode : Mode) (owner : (Nat × Prepared) × Nat) : CoordM Unit := do
  ask Answer.toDone owner.1.1 (.apply mode owner.1.2)
  if owner.2 = 0 && mode.durable && env.faulty .mixedAfterFirstApply then throw .unavailable
  else pure ()

/-- Every owner applies its part. -/
def applyAll (env : Environment) (mode : Mode) (owners : List (Nat × Prepared)) : CoordM Unit := do
  if env.faulty .applyDeadline then throw .timeout
  else if mode.durable && env.faulty .mixedBeforeFirstApply then throw .unavailable
  else do
    owners.zipIdx.forM (applyOne env mode)
    if mode.durable && env.faulty .mixedAfterAllApply then throw .unavailable
    else pure ()

/-- The part under a publication: its result, and whether the publication is completed. -/
def publish (env : Environment) (plan : TransactionPlan) (mode : Mode) (time : Clock) :
    StateM System (Except DbError Reply × Bool) := do
  match ← (prepare plan mode time).run with
  | .error error =>
    match ← (abortAll plan.participants).run with
    | .ok () => pure (.error error, true)
    | .error _ => pure (.error error, false)
  | .ok (replies, owners) =>
    match ← (logDecision env mode owners).run with
    | .error error => pure (.error error, false)
    | .ok (some rejection) => pure (.ok rejection, true)
    | .ok none =>
      match ← (applyAll env mode owners).run with
      | .error error => pure (.error error, false)
      | .ok () => pure (.ok (.array replies), true)

/-- The watched keys of one participant are unchanged. -/
def checkOwner (router : ShardRouter) (watched : List WatchToken) (time : Clock) (owner : Nat) :
    CoordM Bool :=
  ask Answer.toFlag owner (.checkWatches (watched.filter fun token => router.shardFor token.key = owner) time)

/-- Before the publication: every owner supports the mode, and the watched keys are unchanged. -/
def preflight (router : ShardRouter) (plan : TransactionPlan) (mode : Mode)
    (watched : List WatchToken) : CoordM (Option Clock) := do
  (List.range router.count).forM fun shard => do
    if ← ask Answer.toFlag shard (.probe mode) then pure () else throw .unavailable
  let time ← ask Answer.toTime (plan.participants.headD 0) .clock
  let unchanged ← plan.participants.allM (checkOwner router watched time)
  pure (if unchanged then some time else none)

/-- A publication that is not completed closes admission. -/
def guarded {α : Type} (publication : StateM System (α × Bool)) : StateM System α := do
  let (result, complete) ← publication
  if complete then pure result
  else do
    modify fun s => { s with gate := s.gate.close }
    pure result

/-- The accepted transaction, under exclusion. -/
def run (env : Environment) (handle : DbHandle) (plan : TransactionPlan)
    (watched : List WatchToken) : StateM System (Except DbError Reply) :=
  match mode handle with
  | none => pure (.error .unavailable)
  | some mode => do
    match ← (preflight handle.router plan mode watched).run with
    | .error error => pure (.error error)
    | .ok none => pure (.ok .nullArray)
    | .ok (some time) => guarded (publish env plan mode time)

/-- Commands that need a connection. -/
def connectionOnly : Command → Bool
  | .info _ | .subscribe _ | .unsubscribe _ | .publish .. | .multi | .exec | .discard | .watch _ => true
  | _ => false

def checkAdmission : CoordM Unit := fun s => (s.gate.check, s)

/-- The wait for the barrier, which a deadline, a shutdown or an expired lease ends. -/
def barrier (env : Environment) : CoordM Unit := fun s => (env.entry, s)

/-- Check admission, wait for the barrier, and check again. What others do during the wait has been done
when it ends. -/
def enterBarrier (env : Environment) : CoordM Unit := do
  checkAdmission
  barrier env
  checkAdmission

/-- An operation that has to be admitted. -/
def admitted {α : Type} (entry : CoordM Unit) (operation : StateM System (Except DbError α)) :
    StateM System (Except DbError α) := do
  match ← entry.run with
  | .error error => pure (.error error)
  | .ok () => operation

/-- Refuse what cannot be planned, ask for admission, then run. -/
def executeCoordinated (env : Environment) (handle : DbHandle) (commands : List Command)
    (watched : List WatchToken) : StateM System (Except DbError Reply) :=
  if commands.any Command.isMemory then
    pure (.ok (.error (.memory "ERR memory commands are not supported in MULTI")))
  else if commands.any connectionOnly then pure (.ok (.error .connectionOnly))
  else if handle.readonly then pure (.error .unavailable)
  else
    match handle.router.planTransaction commands (watched.map WatchToken.key) with
    | .error error => pure (.ok (.error error))
    | .ok plan => admitted (enterBarrier env) (run env handle plan watched)

/-! ### WATCH over several owners -/

/-- Keys grouped by owner. -/
def keysByOwner (router : ShardRouter) (keys : List Bytes) : List (Nat × List Bytes) :=
  (keys.foldl (fun groups key => Grouping.intoGroup groups (router.shardFor key) key)
    (∅ : OrdMap Nat (List Bytes))).entries

/-- Resolve the expiries of each owner's keys; the first error reply ends the operation. -/
def prepareWatches (mode : Mode) :
    List (Nat × List Bytes) → CoordM (Except Reply (List (Nat × List Bytes × Prepared)))
  | [] => pure (.ok [])
  | (owner, keys) :: rest => do
    let candidate ← ask Answer.toPrepared owner (.prepareWatch mode keys)
    if candidate.reply.isError then pure (.error candidate.reply)
    else do
      let later ← prepareWatches mode rest
      pure (later.map ((owner, keys, candidate) :: ·))

/-- The tokens of every owner, after it applied its expirations. -/
def applyWatches (env : Environment) (mode : Mode) (prepared : List (Nat × List Bytes × Prepared)) :
    CoordM (List WatchToken) := do
  if env.faulty .applyDeadline then throw .timeout
  else do
    let tokens ← prepared.mapM fun owner => ask Answer.toTokens owner.1 (.applyWatch mode owner.2.2 owner.2.1)
    pure tokens.flatten

def watchMutations (prepared : List (Nat × List Bytes × Prepared)) : List Mutation :=
  sortedByKey (prepared.flatMap fun owner => owner.2.2.batch.mutations)

/-- Log the expirations, then apply them and take the tokens. -/
def publishWatch (env : Environment) (mode : Mode) (prepared : List (Nat × List Bytes × Prepared)) :
    StateM System (Except DbError (Reply × List WatchToken) × Bool) := do
  let mutations := watchMutations prepared
  let published := !mutations.isEmpty
  let decision ← (if published then append env ⟨.expiration, mutations⟩ else pure none).run
  match decision with
  | .error error => pure (.error error, false)
  | .ok (some rejection) => pure (.ok (rejection, []), true)
  | .ok none =>
    match ← (applyWatches env mode prepared).run with
    | .error error => pure (.error error, !published)
    | .ok tokens => pure (.ok (.ok, tokens), true)

def runWatch (env : Environment) (router : ShardRouter) (aof : AofHandle) (keys : List Bytes) :
    StateM System (Except DbError (Reply × List WatchToken)) := do
  let mode := Mode.composed aof.writer
  match ← (prepareWatches mode (keysByOwner router keys)).run with
  | .error error => pure (.error error)
  | .ok (.error reply) => pure (.ok (reply, []))
  | .ok (.ok prepared) =>
    if repeatedKey (watchMutations prepared) then pure (.error .unavailable)
    else guarded (publishWatch env mode prepared)

def watchCoordinated (env : Environment) (handle : DbHandle) (keys : List Bytes) :
    StateM System (Except DbError (Reply × List WatchToken)) :=
  match handle.composedAof with
  | none => pure (.error .unavailable)
  | some aof =>
    if handle.readonly then pure (.error .unavailable)
    else admitted (enterBarrier env) (runWatch env handle.router aof keys)

end Coordinator

end Sider
