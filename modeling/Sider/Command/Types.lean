/-
**Typed commands and replies.**

Commands as the store receives them, with the two classifications the rest of the server asks for:
`Command.visitKeys` (the keys, in request order) and `Command.writesDataset`.
-/

import Sider.Command.Score
import Sider.Storage.Memory

namespace Sider

/-! ### Commands -/

inductive HashCommand where
  | set (entries : List (Bytes × Bytes))
  | get (field : Bytes)
  | delete (fields : List Bytes)
  | exists (field : Bytes)
  | len
  | getAll
  deriving DecidableEq

inductive ListCommand where
  | push (left : Bool) (values : List Bytes)
  | pop (left : Bool)
  | len
  | range (start stop : Int)
  deriving DecidableEq

inductive SetCommand where
  | add (members : List Bytes)
  | remove (members : List Bytes)
  | isMember (member : Bytes)
  | card
  | members
  deriving DecidableEq

inductive SortedSetCommand where
  | add (entries : List (Score × Bytes))
  | remove (members : List Bytes)
  | card
  | score (member : Bytes)
  | range (start stop : Int) (withScores : Bool)
  deriving DecidableEq

/-- The sections INFO is asked for, one bit each. -/
structure InfoSections where
  bits : BitVec 8
  deriving DecidableEq, Repr

namespace InfoSections

def server : BitVec 8 := 1
def clients : BitVec 8 := 2
def stats : BitVec 8 := 4
def memory : BitVec 8 := 8
def persistence : BitVec 8 := 16
def config : BitVec 8 := 32
def replication : BitVec 8 := 64

def all : InfoSections := ⟨127⟩

def contains (sections : InfoSections) (bit : BitVec 8) : Bool :=
  sections.bits &&& bit ≠ 0

end InfoSections

inductive Command where
  | memory (key : Bytes) (operation : Operation)
  | info (sections : InfoSections)
  | sortedSet (key : Bytes) (operation : SortedSetCommand)
  | setCollection (key : Bytes) (operation : SetCommand)
  | hash (key : Bytes) (operation : HashCommand)
  | list (key : Bytes) (operation : ListCommand)
  | ping (message : Option Bytes)
  | echo (message : Bytes)
  | get (key : Bytes)
  | set (key value : Bytes)
  | setWithOptions (key value : Bytes) (options : SetOptions)
  | del (keys : List Bytes)
  | exists (keys : List Bytes)
  | incr (key : Bytes)
  | decr (key : Bytes)
  | mGet (keys : List Bytes)
  | mSet (entries : List (Bytes × Bytes))
  | expire (key : Bytes) (value : Int) (unit : ExpiryUnit)
  | ttl (key : Bytes) (milliseconds : Bool)
  | persist (key : Bytes)
  | subscribe (channels : List Bytes)
  | unsubscribe (channels : List Bytes)
  | publish (channel message : Bytes)
  | multi
  | exec
  | discard
  | watch (keys : List Bytes)
  | unwatch
  deriving DecidableEq

namespace Command

/-- Classification without the dataset: a write whose condition would fail is still a write. -/
def writesDataset : Command → Bool
  | memory _ operation => operation.writesDataset
  | set .. | setWithOptions .. | del _ | incr _ | decr _ | mSet _ | expire .. | persist _ => true
  | hash _ operation =>
    match operation with
    | .set _ | .delete _ => true
    | _ => false
  | list _ operation =>
    match operation with
    | .push .. | .pop _ => true
    | _ => false
  | setCollection _ operation =>
    match operation with
    | .add _ | .remove _ => true
    | _ => false
  | sortedSet _ operation =>
    match operation with
    | .add _ | .remove _ => true
    | _ => false
  | _ => false

/-- The keys of a command, in request order and with repetitions. -/
def visitKeys : Command → List Bytes
  | ping _ | info _ | echo _ | subscribe _ | unsubscribe _ | publish .. => []
  | multi | exec | discard | unwatch => []
  | watch keys | del keys | Command.exists keys | mGet keys => keys
  | get key | memory key _ | hash key _ | list key _ | setCollection key _ | sortedSet key _ => [key]
  | set key _ | setWithOptions key .. | incr key | decr key | expire key .. | ttl key _ => [key]
  | persist key => [key]
  | mSet entries => entries.map Prod.fst

end Command

/-! ### Replies -/

/-- Recoverable execution errors. -/
inductive ExecutionError where
  | readOnly
  | crossShard
  | wrongType
  | invalidInteger
  | integerOverflow
  | invalidSetExpiry
  | invalidExpiry (command : String)
  | outOfMemory
  | aofRecordLimit
  | memory (message : String)
  | connectionOnly
  deriving DecidableEq, Repr

/-- The text a client receives. -/
def ExecutionError.text : ExecutionError → String
  | readOnly => "READONLY You can't write against a read only replica."
  | crossShard => "CROSSSLOT Keys in request don't hash to the same slot"
  | wrongType => "WRONGTYPE Operation against a key holding the wrong kind of value"
  | invalidInteger => "ERR value is not an integer or out of range"
  | integerOverflow => "ERR increment or decrement would overflow"
  | invalidSetExpiry => "ERR invalid expire time in 'set' command"
  | invalidExpiry command => "ERR invalid expire time in '" ++ command ++ "' command"
  | outOfMemory => "OOM dataset memory quota exceeded"
  | aofRecordLimit => "ERR AOF record limit exceeded"
  | memory message => message
  | connectionOnly => "ERR command requires connection context"

inductive Reply where
  | pong
  | ok
  | bulk (value : Option Bytes)
  | integer (value : Int)
  | array (values : List Reply)
  | nullArray
  | error (error : ExecutionError)

end Sider
