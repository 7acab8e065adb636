/-
**Transactions of a connection.**

Between MULTI and EXEC a connection keeps its commands to itself, and outside of it the tokens of the keys
it watches. `Transaction.handle` decides one parsed command: it is answered here, goes on to the database,
or ends a queue, whose commands and tokens are then submitted together. A refusal poisons the open queue:
later commands are still answered QUEUED, and EXEC discards them.

The owners of the keys are followed by two pairs of a selected shard and a mark that some key belongs to
another one: of the watched keys, and of the queue, which starts from the former. Only a composed log lets
a queue cross shards.
-/

import Sider.Command.Reply
import Sider.Security.Policy
import Sider.Storage.Coordinator

namespace Sider.Connection

open Resp

/-! ### Answers -/

/-- Why the transaction layer refuses a command. -/
inductive Refusal where
  | nestedMulti
  | discardWithoutMulti
  | execWithoutMulti
  | permission
  | aborted
  | watchInsideMulti
  | watchLimit
  | memory
  | readOnly
  | crossShard
  | unsupported
  | queueLimit
  deriving DecidableEq, Repr

namespace Refusal

def text : Refusal → String
  | nestedMulti => "ERR MULTI calls can not be nested"
  | discardWithoutMulti => "ERR DISCARD without MULTI"
  | execWithoutMulti => "ERR EXEC without MULTI"
  | permission => "NOPERM Permission denied"
  | aborted => "EXECABORT Transaction discarded because of previous errors."
  | watchInsideMulti => "ERR WATCH inside MULTI is not allowed"
  | watchLimit => "ERR WATCH key limit exceeded"
  | memory => "ERR memory commands are not supported in MULTI"
  | readOnly => ExecutionError.readOnly.text
  | crossShard => ExecutionError.crossShard.text
  | unsupported => "ERR unsupported cross-shard transaction command"
  | queueLimit => "ERR transaction queue limit exceeded"

end Refusal

/-- What the transaction layer answers by itself. A WATCH is answered OK as well, with the tokens it took,
unless the database refuses it. -/
inductive Answer where
  | ok
  | queued
  | watching (tokens : List WatchToken)
  | refused (refusal : Refusal)
  | database (reply : Reply)

def Answer.toFrame : Answer → Frame
  | ok | watching _ => .leaf (.simple (Bytes.ascii "OK"))
  | queued => .leaf (.simple (Bytes.ascii "QUEUED"))
  | refused refusal => errorFrame refusal.text
  | database reply => reply.toFrame

inductive Action where
  | execute (command : Command)
  | answer (answer : Answer)
  | exec (commands : List Command) (watched : List WatchToken)

/-! ### Surroundings -/

structure ConnectionConfig where
  router : ShardRouter
  composedAof : Bool
  watchMaxKeys : Nat
  transactionMaxCommands : Nat
  transactionMaxBytes : Nat

/-- The database as one command meets it. -/
structure Database where
  readonly : Bool
  watch : List Bytes → Except DbError (Reply × List WatchToken)

/-! ### State -/

structure Queue where
  commands : List Command
  bytes : Nat
  shard : Option Nat
  crossed : Bool
  dirty : Bool
  permissionDenied : Bool
  deriving DecidableEq

structure Transaction where
  queue : Option Queue
  watched : OrdMap Bytes WatchToken
  watchShard : Option Nat
  watchCrossed : Bool
  deriving DecidableEq

/-- The commands that a queue over several shards may hold. -/
def coordinatedCommand : Command → Bool
  | .info _ | .subscribe _ | .unsubscribe _ | .publish .. | .multi | .exec | .discard | .watch _
  | .memory .. => false
  | _ => true

/-- Select the shards of keys to be watched; only a composed log lets them cross. -/
def ConnectionConfig.selectWatched (config : ConnectionConfig) :
    List Bytes → Option Nat × Bool → Except ExecutionError (Option Nat × Bool)
  | [], state => .ok state
  | key :: keys, (shard, crossed) =>
    match config.router.selectKey key shard with
    | .ok selected => config.selectWatched keys (selected, crossed)
    | .error error =>
      if config.composedAof then config.selectWatched keys (shard, true) else .error error

namespace Queue

/-- A queue that starts from the shards of the watched keys. -/
def start (shard : Option Nat) (crossed : Bool) : Queue :=
  ⟨[], 0, shard, crossed, false, false⟩

def poison (queue : Queue) : Queue :=
  { queue with dirty := true, commands := [], bytes := 0 }

/-- Append a command whose keys selected a shard, or crossed. -/
def push (queue : Queue) (command : Command) (bytes : Nat)
    (selected : Except ExecutionError (Option Nat)) : Queue :=
  { queue with
    commands := queue.commands ++ [command]
    bytes := queue.bytes + bytes
    crossed := queue.crossed || !selected.toBool
    shard := if queue.crossed then queue.shard else selected.toOption.getD queue.shard }

end Queue

namespace Transaction

def empty : Transaction := ⟨none, ∅, none, false⟩

def active (t : Transaction) : Bool := t.queue.isSome

def poison (t : Transaction) : Transaction :=
  { t with queue := t.queue.map Queue.poison }

/-- No key is watched any more. -/
def released (t : Transaction) : Transaction :=
  { t with watched := ∅, watchShard := none, watchCrossed := false }

/-- A reload drops the queue if it holds a command no longer granted, and the watches if WATCH is not. -/
def revalidate (decode : String → Option Bytes) (policy : ClientPolicy) (username : String)
    (t : Transaction) : Transaction :=
  let refuses (command : Command) : Bool :=
    !(policy.authorize decode username (Bytes.ascii (commandName command).text) command).toBool
  let checked := { t with
    queue := t.queue.map fun queue =>
      if queue.commands.any refuses then
        { queue with commands := [], bytes := 0, permissionDenied := true }
      else queue }
  if !t.watched.isEmpty && refuses (.watch t.watched.keys) then checked.released else checked

/-! ### Commands -/

def multi (t : Transaction) : Answer × Transaction :=
  match t.queue with
  | some _ => (.refused .nestedMulti, t)
  | none => (.ok, { t with queue := some (.start t.watchShard t.watchCrossed) })

def discard (t : Transaction) : Answer × Transaction :=
  match t.queue with
  | none => (.refused .discardWithoutMulti, t)
  | some _ => (.ok, { t.released with queue := none })

def exec (t : Transaction) : Action × Transaction :=
  match t.queue with
  | none => (.answer (.refused .execWithoutMulti), t)
  | some queue =>
    let action := if queue.permissionDenied then .answer (.refused .permission)
      else if queue.dirty then .answer (.refused .aborted)
      else .exec queue.commands t.watched.values
    (action, { t.released with queue := none })

/-- The keys of a WATCH that are not watched yet. -/
def unwatched (t : Transaction) (keys : List Bytes) : OrdSet Bytes :=
  .ofKeys (keys.filter fun key => key ∉ t.watched)

/-- Watch keys. The database is asked for tokens if there are new ones. -/
def watch (config : ConnectionConfig) (database : Database) (t : Transaction) (keys : List Bytes) :
    Except DbError Answer × Transaction :=
  let fresh := t.unwatched keys
  if t.active then (.ok (.refused .watchInsideMulti), t)
  else if config.watchMaxKeys < fresh.size + t.watched.size then (.ok (.refused .watchLimit), t)
  else
    match config.selectWatched fresh.keys (t.watchShard, t.watchCrossed) with
    | .error _ => (.ok (.refused .crossShard), t)
    | .ok (shard, crossed) =>
      let selected := { t with watchShard := shard, watchCrossed := crossed }
      if fresh.isEmpty then (.ok (.watching []), selected)
      else
        match database.watch fresh.keys with
        | .error error => (.error error, t)
        | .ok (reply, tokens) =>
          if reply.isError then (.ok (.database reply), t)
          else (.ok (.watching tokens), { selected with
            watched := tokens.foldl (fun watched token => watched.insert token.key token) t.watched })

/-- Queue a command. A poisoned queue answers as if it did. -/
def enqueue (config : ConnectionConfig) (t : Transaction) (queue : Queue) (command : Command)
    (bytes : Nat) : Answer × Transaction :=
  let selected := config.router.selectCommand command queue.shard
  if queue.dirty || queue.permissionDenied then (.queued, t)
  else if !selected.toBool && !config.composedAof then (.refused .crossShard, t.poison)
  else if config.composedAof && (queue.crossed || !selected.toBool) &&
      (!coordinatedCommand command || queue.commands.any (!coordinatedCommand ·) ||
        !(config.router.planTransactionCommand command).toBool) then
    (.refused .unsupported, t.poison)
  else if config.transactionMaxCommands ≤ queue.commands.length ||
      (Machine.checkedAdd queue.bytes bytes).all (config.transactionMaxBytes < ·) then
    (.refused .queueLimit, t.poison)
  else (.queued, { t with queue := some (queue.push command bytes selected) })

/-- Decide one command. In subscriber mode it goes on as it is. -/
def handle (config : ConnectionConfig) (database : Database) (t : Transaction) (command : Command)
    (bytes : Nat) (subscribed : Bool) : Except DbError Action × Transaction :=
  let answered : Answer × Transaction → Except DbError Action × Transaction :=
    Prod.map (fun answer => .ok (.answer answer)) id
  if subscribed then (.ok (.execute command), t)
  else if t.active && command.isMemory then answered (.refused .memory, t.poison)
  else if database.readonly && command.writesDataset then answered (.refused .readOnly, t.poison)
  else
    match command, t.queue with
    | .multi, _ => answered t.multi
    | .discard, _ => answered t.discard
    | .exec, _ => t.exec.map .ok id
    | .watch keys, _ => (t.watch config database keys).map (Except.map .answer) id
    | .unwatch, none => answered (.ok, t.released)
    | command, none => (.ok (.execute command), t)
    | command, some queue => answered (t.enqueue config queue command bytes)

end Transaction

end Sider.Connection
