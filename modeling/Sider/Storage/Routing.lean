/-
**Stable routing of keys and planning of a transaction.**

A key belongs to the shard given by the FNV-1a hash of its hash tag. A queued command whose keys
belong to one shard is sent there whole; MGET, EXISTS, DEL and MSET are otherwise split into one
fragment per owner, and `ReplyPlan.assemble` puts the replies of the fragments together again.
-/

import Sider.Storage.Value
import Sider.Lib.Grouping

namespace Sider

/-! ### Owners of keys -/

def maxShards : Nat := 256

/-- The bytes between the first `{` and the next `}`, if there are any; else the whole key. -/
def hashTag (key : Bytes) : Bytes :=
  match key.dropWhile (· ≠ 123) with
  | [] => key
  | _ :: suffix =>
    let tag := suffix.takeWhile (· ≠ 125)
    if tag.length < suffix.length && !tag.isEmpty then tag else key

/-- FNV-1a, modulo 2^64. -/
def stableHash (bytes : Bytes) : Nat :=
  bytes.foldl (fun hash byte => (hash ^^^ byte.val) * 1099511628211 % Machine.word)
    14695981039346656037

/-- A number of shards within the supported range. -/
structure ShardRouter where
  count : Nat
  positive : 0 < count
  bounded : count ≤ maxShards

namespace ShardRouter

/-- Two shards, for runs on fixed inputs. -/
def pair : ShardRouter := ⟨2, by decide, by decide⟩

def shardFor (router : ShardRouter) (key : Bytes) : Nat :=
  stableHash (hashTag key) % router.count

theorem shardFor_lt (router : ShardRouter) (key : Bytes) : router.shardFor key < router.count :=
  Nat.mod_lt _ router.positive

/-- Every owner of a queue and of its watched keys; shard 0 when there is none. -/
def transactionParticipants (router : ShardRouter) (commands : List Command)
    (watched : List Bytes) : List Nat :=
  let owners := (List.range router.count).filter fun owner =>
    (watched ++ commands.flatMap Command.visitKeys).any fun key => router.shardFor key = owner
  if owners.isEmpty then [0] else owners

/-- Select the shard of a key, unless another one is selected. -/
def selectKey (router : ShardRouter) (key : Bytes) (selected : Option Nat) :
    Except ExecutionError (Option Nat) :=
  let shard := router.shardFor key
  if selected.any (· ≠ shard) then .error .crossShard else .ok (some shard)

/-- Visit every key of a command, and note whether one belongs to another shard. -/
def selectVisited (router : ShardRouter) (state : Option Nat × Bool) (key : Bytes) : Option Nat × Bool :=
  match router.selectKey key state.1 with
  | .ok selected => (selected, state.2)
  | .error _ => (state.1, true)

def selectCommand (router : ShardRouter) (command : Command) (selected : Option Nat) :
    Except ExecutionError (Option Nat) :=
  let (selected, crossed) := command.visitKeys.foldl router.selectVisited (selected, false)
  if crossed then .error .crossShard else .ok selected

end ShardRouter

/-! ### Replies of fragments -/

structure Fragment where
  owner : Nat
  command : Command
  deriving DecidableEq

inductive ReplyPlan where
  | direct
  | sum (fragments : Nat)
  | orderedBulk (positions : List (Nat × Nat)) (lengths : List Nat)
  | allOk (fragments : Nat)
  deriving DecidableEq, Repr

inductive PlanError where
  | invalidReply
  | overflow
  deriving DecidableEq, Repr

namespace ReplyPlan

def isBulk : Reply → Bool
  | .bulk _ => true
  | _ => false

/-- Add the counts, or return the first error. -/
def assembleSum : List Reply → Nat → Except PlanError Reply
  | [], total => .ok (.integer total)
  | .integer value :: replies, total =>
    if 0 ≤ value then
      if (total : Int) + value ≤ Machine.i64Max then assembleSum replies (total + value.toNat)
      else .error .overflow
    else .error .invalidReply
  | .error error :: _, _ => .ok (.error error)
  | _ :: _, _ => .error .invalidReply

/-- `OK` if every fragment answered so, or the first error. -/
def assembleOk : List Reply → Except PlanError Reply
  | [] => .ok .ok
  | .ok :: replies => assembleOk replies
  | .error error :: _ => .ok (.error error)
  | _ :: _ => .error .invalidReply

/-- The rows of bulks that the fragments returned, or the first error reply. -/
def assembleRows : List Reply → List Nat → Except (Except PlanError Reply) (List (List (Option Reply)))
  | .array values :: replies, expected :: lengths =>
    if values.length = expected && values.all isBulk then
      (assembleRows replies lengths).map ((values.map some) :: ·)
    else .error (.error .invalidReply)
  | .error error :: _, _ :: _ => .error (.ok (.error error))
  | _ :: _, _ :: _ => .error (.error .invalidReply)
  | _, _ => .ok []

/-- Rebuild the reply of the original command. -/
def assemble (plan : ReplyPlan) (replies : List Reply) : Except PlanError Reply :=
  match plan with
  | .direct =>
    match replies with
    | [reply] => .ok reply
    | _ => .error .invalidReply
  | .sum fragments =>
    if replies.length = fragments then assembleSum replies 0 else .error .invalidReply
  | .allOk fragments =>
    if replies.length = fragments then assembleOk replies else .error .invalidReply
  | .orderedBulk positions lengths =>
    if replies.length = lengths.length then
      match assembleRows replies lengths with
      | .error early => early
      | .ok rows =>
        match positions.foldlM Grouping.takePosition (rows, []) with
        | none => .error .invalidReply
        | some (rest, ordered) =>
          if rest.any (fun row => row.any Option.isSome) then .error .invalidReply
          else .ok (.array ordered)
    else .error .invalidReply

end ReplyPlan

/-! ### Planning -/

structure CommandPlan where
  fragments : List Fragment
  reply : ReplyPlan
  jointCommit : Bool
  deriving DecidableEq

structure TransactionPlan where
  participants : List Nat
  commands : List CommandPlan
  deriving DecidableEq

namespace ShardRouter

/-- Put a key in its owner's group and note where it went. -/
def splitKey (router : ShardRouter) (state : OrdMap Nat (List Bytes) × List (Nat × Nat))
    (key : Bytes) : OrdMap Nat (List Bytes) × List (Nat × Nat) :=
  let owner := router.shardFor key
  (Grouping.intoGroup state.1 owner key, state.2 ++ [(owner, ((state.1.get? owner).getD []).length)])

def splitKeys (router : ShardRouter) (keys : List Bytes) (command : List Bytes → Command)
    (jointCommit ordered : Bool) : CommandPlan :=
  let (groups, ownerPositions) := keys.foldl router.splitKey (∅, [])
  let positions := ownerPositions.map fun (owner, position) => (groups.keys.idxOf owner, position)
  { fragments := groups.entries.map fun (owner, keys) => ⟨owner, command keys⟩
    reply := if ordered then .orderedBulk positions (groups.values.map List.length)
      else .sum groups.size
    jointCommit := jointCommit }

def splitMset (router : ShardRouter) (entries : List (Bytes × Bytes)) : CommandPlan :=
  let groups := entries.foldl
    (fun groups entry => Grouping.intoGroup groups (router.shardFor entry.1) entry) ∅
  { fragments := groups.entries.map fun (owner, entries) => ⟨owner, .mSet entries⟩
    reply := .allOk groups.size
    jointCommit := true }

/-- Send the command to its one owner, or split it. -/
def planTransactionCommand (router : ShardRouter) (command : Command) :
    Except ExecutionError CommandPlan :=
  match router.transactionParticipants [command] [] with
  | [owner] => .ok ⟨[⟨owner, command⟩], .direct, false⟩
  | _ =>
    match command with
    | .mGet keys => .ok (router.splitKeys keys .mGet false true)
    | .exists keys => .ok (router.splitKeys keys .exists false false)
    | .del keys => .ok (router.splitKeys keys .del true false)
    | .mSet entries => .ok (router.splitMset entries)
    | _ => .error .crossShard

def planTransaction (router : ShardRouter) (commands : List Command) (watched : List Bytes) :
    Except ExecutionError TransactionPlan := do
  let plans ← commands.mapM router.planTransactionCommand
  .ok ⟨router.transactionParticipants commands watched, plans⟩

end ShardRouter

end Sider
