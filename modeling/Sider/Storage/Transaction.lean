/-
**Preparation of a whole EXEC on one owner.**

The owner's keys are copied to a tentative store; each command is prepared on it and applied to
it, and the trace tokens that were invalidated name the keys of the batch.
-/

import Sider.Storage.Mutation

namespace Sider

def Command.isMemory : Command → Bool
  | .memory .. => true
  | _ => false

namespace Store

/-- The token deadline of a key: its own expiry, or the earliest member deadline still to come. -/
def watchDeadline (s : Store) (key : Bytes) : Option Nat :=
  (s.values.get? key).bind fun entry =>
    (entry.expiresAt.toList ++ entry.memberDeadlines.values.filter (s.clock.now < ·)).min?

def watchKey (state : List WatchToken × Store) (key : Bytes) : List WatchToken × Store :=
  let (token, registry) := state.2.watches.token key (state.2.watchDeadline key)
  (state.1 ++ [token], { state.2 with watches := registry })

/-- One token per key, in order. -/
def watch (s : Store) (keys : List Bytes) : List WatchToken × Store :=
  keys.foldl watchKey ([], s)

def watchesValidAt (s : Store) (tokens : List WatchToken) (now : Nat) : Bool :=
  tokens.all fun token => s.watches.id = token.registry && !s.watches.changed token now

end Store

/-- Tentative state of one owner during an EXEC. -/
structure OwnerTransaction where
  shadow : Store
  trace : List WatchToken

namespace OwnerTransaction

/-- The owner's keys, copied under the transaction's clock. -/
def start (owner : Store) (keys : List Bytes) (time : Clock) : OwnerTransaction :=
  let shadow := keys.foldl
    (fun shadow key => owner.copyMembers (owner.copyEntry shadow key) key) (owner.blank time)
  let (trace, shadow) := shadow.watch keys
  ⟨shadow, trace⟩

def prepareCandidate (t : OwnerTransaction) (command : Command) : Prepared :=
  t.shadow.prepare command

def acceptCandidate (t : OwnerTransaction) (candidate : Prepared) : OwnerTransaction :=
  { t with shadow := t.shadow.apply candidate }

/-- The batch: the keys whose trace token was invalidated, with their tentative images. -/
def sealed (t : OwnerTransaction) (owner : Store) (replies : List Reply) : Prepared :=
  let touched := t.trace.filter fun token => t.shadow.watches.invalidated token
  owner.prepared (.array replies) (touched.map fun token => (token.key, t.shadow.image? token.key))
    .client t.shadow.fault

/-- Run one queued command tentatively. -/
def step (state : OwnerTransaction × List Reply) (command : Command) :
    OwnerTransaction × List Reply :=
  match command with
  | .unwatch => (state.1, state.2 ++ [.ok])
  | command =>
    let candidate := state.1.prepareCandidate command
    (state.1.acceptCandidate candidate, state.2 ++ [candidate.reply])

end OwnerTransaction

namespace Store

/-- Resolve an owner's commands at one instant, without changing the owner. -/
def prepareBatchAt (s : Store) (commands : List Command) (time : Clock) : Prepared :=
  if commands.any Command.isMemory then
    s.prepared (.error (.memory "ERR memory commands are not supported in MULTI")) [] .client false
  else
    let keys := (OrdMap.ofKeys (commands.flatMap Command.visitKeys)).keys
    let (tentative, replies) := commands.foldl OwnerTransaction.step
      (OwnerTransaction.start s keys time, [])
    tentative.sealed s replies

end Store

end Sider
