/-
**Client policy: what a user may do.**

A policy lists users, each with the commands, keys, channels and INFO sections granted to it.
`ClientPolicy.authorize` decides one parsed command: its name must be granted, every key it visits must
lie in the user's write scope if it is a write and in the read scope otherwise, and so for its channels
and sections. Scope rules are kept in the text form the policy file has; `decode` is the standard Base64
decoder. Command and section names are those the policy parser admits.

`authorize_ok` is what an authorized command satisfies: its user is listed, and its keys lie in the
scope of its kind (`scope`), since the names listed as writes are exactly those of the commands that
write the dataset (`writes_commandName`).
-/

import Sider.Command.Types

namespace Sider

/-- Why an access is refused. -/
inductive SecurityError where
  | policy
  | configuration
  | platformValidation
  | authentication
  | permission
  | transport
  deriving DecidableEq, Repr

/-! ### Names -/

inductive CommandName where
  | get | mGet | exists | ttl | pttl | hGet | hExists | hLen | hGetAll
  | lLen | lRange | sIsMember | sCard | sMembers | zCard | zScore | zRange | set
  | del | mSet | incr | decr | expire | pExpire | persist | hSet | hDel
  | lPush | rPush | lPop | rPop | sAdd | sRem | zAdd | zRem | publish
  | subscribe | unsubscribe | multi | exec | discard | unwatch | watch | info | ping
  | echo | memInfo | memGet | memPttl | memSearch | memCreate | memPut | memDel | memExpire
  | memPersist
  deriving DecidableEq, Repr

namespace CommandName

def text : CommandName → String
  | .get => "GET"
  | .mGet => "MGET"
  | .exists => "EXISTS"
  | .ttl => "TTL"
  | .pttl => "PTTL"
  | .hGet => "HGET"
  | .hExists => "HEXISTS"
  | .hLen => "HLEN"
  | .hGetAll => "HGETALL"
  | .lLen => "LLEN"
  | .lRange => "LRANGE"
  | .sIsMember => "SISMEMBER"
  | .sCard => "SCARD"
  | .sMembers => "SMEMBERS"
  | .zCard => "ZCARD"
  | .zScore => "ZSCORE"
  | .zRange => "ZRANGE"
  | .set => "SET"
  | .del => "DEL"
  | .mSet => "MSET"
  | .incr => "INCR"
  | .decr => "DECR"
  | .expire => "EXPIRE"
  | .pExpire => "PEXPIRE"
  | .persist => "PERSIST"
  | .hSet => "HSET"
  | .hDel => "HDEL"
  | .lPush => "LPUSH"
  | .rPush => "RPUSH"
  | .lPop => "LPOP"
  | .rPop => "RPOP"
  | .sAdd => "SADD"
  | .sRem => "SREM"
  | .zAdd => "ZADD"
  | .zRem => "ZREM"
  | .publish => "PUBLISH"
  | .subscribe => "SUBSCRIBE"
  | .unsubscribe => "UNSUBSCRIBE"
  | .multi => "MULTI"
  | .exec => "EXEC"
  | .discard => "DISCARD"
  | .unwatch => "UNWATCH"
  | .watch => "WATCH"
  | .info => "INFO"
  | .ping => "PING"
  | .echo => "ECHO"
  | .memInfo => "MEM.INFO"
  | .memGet => "MEM.GET"
  | .memPttl => "MEM.PTTL"
  | .memSearch => "MEM.SEARCH"
  | .memCreate => "MEM.CREATE"
  | .memPut => "MEM.PUT"
  | .memDel => "MEM.DEL"
  | .memExpire => "MEM.EXPIRE"
  | .memPersist => "MEM.PERSIST"

/-- The names a policy can grant: all but UNSUBSCRIBE, which needs no grant. -/
def grantable : CommandName → Bool
  | unsubscribe => false
  | _ => true

/-- The names whose keys are checked against the write scope. -/
def writes : CommandName → Bool
  | set | del | mSet | incr | decr | expire | pExpire | persist | hSet | hDel | lPush | rPush => true
  | lPop | rPop | sAdd | sRem | zAdd | zRem => true
  | memCreate | memPut | memDel | memExpire | memPersist => true
  | _ => false

end CommandName

def Operation.commandName : Operation → CommandName
  | create _ => .memCreate
  | info => .memInfo
  | put .. => .memPut
  | get _ => .memGet
  | delete _ => .memDel
  | pttl _ => .memPttl
  | expire .. => .memExpire
  | persist _ => .memPersist
  | search .. => .memSearch

/-- The name a typed command is granted under. -/
def commandName : Command → CommandName
  | .memory _ operation => operation.commandName
  | .info _ => .info
  | .ping _ => .ping
  | .echo _ => .echo
  | .get _ => .get
  | .set .. | .setWithOptions .. => .set
  | .del _ => .del
  | .exists _ => .exists
  | .incr _ => .incr
  | .decr _ => .decr
  | .mGet _ => .mGet
  | .mSet _ => .mSet
  | .expire _ _ .seconds => .expire
  | .expire _ _ .milliseconds => .pExpire
  | .ttl _ false => .ttl
  | .ttl _ true => .pttl
  | .persist _ => .persist
  | .subscribe _ => .subscribe
  | .unsubscribe _ => .unsubscribe
  | .publish .. => .publish
  | .multi => .multi
  | .exec => .exec
  | .discard => .discard
  | .watch _ => .watch
  | .unwatch => .unwatch
  | .hash _ operation =>
    match operation with
    | .set _ => .hSet
    | .get _ => .hGet
    | .delete _ => .hDel
    | .exists _ => .hExists
    | .len => .hLen
    | .getAll => .hGetAll
  | .list _ operation =>
    match operation with
    | .push true _ => .lPush
    | .push false _ => .rPush
    | .pop true => .lPop
    | .pop false => .rPop
    | .len => .lLen
    | .range .. => .lRange
  | .setCollection _ operation =>
    match operation with
    | .add _ => .sAdd
    | .remove _ => .sRem
    | .isMember _ => .sIsMember
    | .card => .sCard
    | .members => .sMembers
  | .sortedSet _ operation =>
    match operation with
    | .add _ => .zAdd
    | .remove _ => .zRem
    | .card => .zCard
    | .score _ => .zScore
    | .range .. => .zRange

/-- **The names listed as writes are those of the commands that write the dataset.** -/
theorem writes_commandName (command : Command) :
    (commandName command).writes = command.writesDataset := by
  cases command with
  | memory key operation => cases operation <;> rfl
  | hash key operation => cases operation <;> rfl
  | list key operation =>
    cases operation with
    | push left values => cases left <;> rfl
    | pop left => cases left <;> rfl
    | _ => rfl
  | setCollection key operation => cases operation <;> rfl
  | sortedSet key operation => cases operation <;> rfl
  | expire key value unit => cases unit <;> rfl
  | ttl key milliseconds => cases milliseconds <;> rfl
  | _ => rfl

/-! ### Policies -/

/-- Keys or channels, by exact value or by leading bytes; the rules are Base64 texts. -/
structure Scope where
  exact : List String
  prefixes : List String
  all : Bool
  deriving DecidableEq, Repr

/-- A section of INFO a policy can grant. -/
inductive InfoSection where
  | server | clients | stats | memory | persistence | config | replication
  deriving DecidableEq, Repr

namespace InfoSection

def bit : InfoSection → BitVec 8
  | server => InfoSections.server
  | clients => InfoSections.clients
  | stats => InfoSections.stats
  | memory => InfoSections.memory
  | persistence => InfoSections.persistence
  | config => InfoSections.config
  | replication => InfoSections.replication

def sections : List InfoSection :=
  [server, clients, stats, memory, persistence, config, replication]

end InfoSection

/-- A password's verifier and the texts of its interval. -/
structure Credential where
  verifier : String
  notBefore : String
  expiresAt : String
  deriving DecidableEq, Repr

/-- A user's credentials, and what it is granted. -/
structure User where
  name : String
  credentials : List Credential := []
  commands : List CommandName
  readKeys : Scope
  writeKeys : Scope
  publishChannels : Scope
  subscribeChannels : Scope
  infoSections : List InfoSection
  deriving DecidableEq, Repr

structure ClientPolicy where
  users : List User
  deriving DecidableEq, Repr

/-! ### Authorization -/

namespace Bytes

def toAsciiLowercase (byte : Byte) : Byte :=
  if 65 ≤ byte.val && byte.val ≤ 90 then Fin.ofNat 256 (byte.val + 32) else byte

def eqIgnoreAsciiCase (first second : Bytes) : Bool :=
  first.map toAsciiLowercase = second.map toAsciiLowercase

end Bytes

section Authorization

variable (decode : String → Option Bytes)

def Scope.permits (scope : Scope) (value : Bytes) : Bool :=
  scope.all
    || scope.exact.any (fun rule => (decode rule).any (· = value))
    || scope.prefixes.any (fun rule => (decode rule).any (·.isPrefixOf value))

/-- The scope that the keys of a command must lie in. -/
def User.scope (user : User) (name : CommandName) : Scope :=
  if name.writes then user.writeKeys else user.readKeys

/-- The channels and sections of a command. -/
def User.permitsTopics (user : User) : Command → Bool
  | .publish channel _ => user.publishChannels.permits decode channel
  | .subscribe channels => channels.all (user.subscribeChannels.permits decode)
  | .info asked =>
    InfoSection.sections.all fun granted =>
      !asked.contains granted.bit || user.infoSections.contains granted
  | _ => true

def ClientPolicy.find? (policy : ClientPolicy) (username : String) : Option User :=
  policy.users.find? fun user => user.name = username

def ClientPolicy.authorize (policy : ClientPolicy) (username : String) (name : Bytes)
    (command : Command) : Except SecurityError Unit :=
  if !Bytes.eqIgnoreAsciiCase name (Bytes.ascii (commandName command).text) then .error .permission
  else
    match policy.find? username with
    | none => .error .permission
    | some user =>
      match command with
      | .unsubscribe _ => .ok ()
      | command =>
        -- in upper case the name is now the text of the command's own
        let name := commandName command
        if !name.grantable || !user.commands.contains name then .error .permission
        else if !command.visitKeys.all ((user.scope name).permits decode) then .error .permission
        else if user.permitsTopics decode command then .ok ()
        else .error .permission

variable {decode}

/-- **What an authorized command satisfies.** -/
theorem ClientPolicy.authorize_ok {policy : ClientPolicy} {username : String} {name : Bytes}
    {command : Command} (authorized : policy.authorize decode username name command = .ok ()) :
    ∃ user, policy.find? username = some user ∧
      ∀ key ∈ command.visitKeys, (user.scope (commandName command)).permits decode key = true := by
  unfold ClientPolicy.authorize at authorized
  split at authorized
  · cases authorized
  · split at authorized
    · cases authorized
    · rename_i user found
      refine ⟨user, found, ?_⟩
      split at authorized
      · exact nofun
      · dsimp only at authorized
        split at authorized
        · cases authorized
        · split at authorized
          · cases authorized
          · rename_i checked
            simpa using checked

end Authorization

end Sider
