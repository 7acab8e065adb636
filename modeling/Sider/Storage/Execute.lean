/-
**Command execution on the map.**

`executeInner` runs one validated command on a store, at the instant its clock reads. The four
collection families share their frame (`withCollection`: expire the key, check the type, read the
expiry to keep) and their two ways to write back (`storeWithinQuota`, `storeOrRemove`).
-/

import Sider.Storage.Store

namespace Sider

open StoreM

/-! ### Writing a value back -/

/-- Store a value that may have grown, unless the quota refuses it. -/
def storeWithinQuota (key : Bytes) (value : Value) (expiry : Option (Nat × Int)) (reply : Reply) :
    StoreM Reply := do
  if ← canReplace key value then
    insert key value expiry
    pure reply
  else pure (.error .outOfMemory)

/-- Store a value that has shrunk, or remove the key when nothing is left of it. -/
def storeOrRemove (key : Bytes) (empty : Bool) (value : Value) (expiry : Option (Nat × Int))
    (reply : Reply) : StoreM Reply := do
  if empty then
    let _ ← remove key
    pure reply
  else
    insert key value expiry
    pure reply

/-- Expire the key, then run `body` on the collection it holds (empty when absent). -/
def withCollection {γ : Type} (view : Value → Option γ) (empty : γ) (key : Bytes) (now : Nat)
    (body : γ → Option (Nat × Int) → StoreM Reply) : StoreM Reply := do
  expireKey key now
  let entry ← lookup key
  match entry with
  | none => body empty none
  | some image =>
    match view image.value with
    | some collection => body collection image.expiry
    | none => pure (.error .wrongType)

/-! ### Collections -/

/-- Inclusive signed indexes as a half-open range; `none` when it is empty. -/
def range (length : Nat) (start stop : Int) : Option (Nat × Nat) :=
  let start := if start < 0 then start + length else start
  let stop := if stop < 0 then stop + length else stop
  let start := max start 0
  let stop := min stop (length - 1)
  if stop < start ∨ (length : Int) ≤ start then none else some (start.toNat, (stop + 1).toNat)

def bulk (value : Bytes) : Reply := .bulk (some value)

def flag (condition : Bool) : Reply := .integer (if condition then 1 else 0)

/-- Insert a field, counting it when it is new. -/
def hashPut (state : OrdMap Bytes Bytes × Nat) (entry : Bytes × Bytes) : OrdMap Bytes Bytes × Nat :=
  (state.1.insert entry.1 entry.2,
    if (state.1.get? entry.1).isNone then state.2 + 1 else state.2)

/-- Remove a key of a map or set, counting it when it was there. -/
def countErase {α : Type} (state : OrdMap Bytes α × Nat) (key : Bytes) : OrdMap Bytes α × Nat :=
  (state.1.erase key, if (state.1.get? key).isSome then state.2 + 1 else state.2)

/-- Add a member, counting it when it is new. -/
def setPut (state : OrdSet Bytes × Nat) (member : Bytes) : OrdSet Bytes × Nat :=
  (state.1.add member, if (state.1.get? member).isNone then state.2 + 1 else state.2)

def hash (key : Bytes) (operation : HashCommand) (now : Nat) : StoreM Reply :=
  withCollection Value.asHash ∅ key now fun values expiry =>
    match operation with
    | .get field => pure (.bulk (values.get? field))
    | .exists field => pure (flag (values.get? field).isSome)
    | .len => pure (.integer values.size)
    | .getAll => pure (.array (values.entries.flatMap fun entry => [bulk entry.1, bulk entry.2]))
    | .set entries =>
      if entries.isEmpty then pure (.integer 0)
      else
        let (values, added) := entries.foldl hashPut (values, 0)
        storeWithinQuota key (.hash values) expiry (.integer added)
    | .delete fields =>
      let (values, count) := fields.foldl countErase (values, 0)
      if 0 < count then storeOrRemove key values.isEmpty (.hash values) expiry (.integer count)
      else pure (.integer count)

def list (key : Bytes) (operation : ListCommand) (now : Nat) : StoreM Reply :=
  withCollection Value.asList [] key now fun values expiry =>
    match operation with
    | .len => pure (.integer values.length)
    | .range start stop =>
      pure (.array (((range values.length start stop).map fun (first, last) =>
        ((values.drop first).take (last - first)).map bulk).getD []))
    | .push left incoming =>
      if incoming.isEmpty then pure (.integer values.length)
      else
        let values := incoming.foldl
          (fun values value => if left then value :: values else values ++ [value]) values
        storeWithinQuota key (.list values) expiry (.integer values.length)
    | .pop left =>
      let result := if left then values.head? else values.getLast?
      let values := if left then values.tail else values.dropLast
      match result with
      | some value => storeOrRemove key values.isEmpty (.list values) expiry (bulk value)
      | none => pure (.bulk none)

def setCollection (key : Bytes) (operation : SetCommand) (now : Nat) : StoreM Reply :=
  withCollection Value.asSet ∅ key now fun members expiry =>
    match operation with
    | .card => pure (.integer members.size)
    | .isMember member => pure (flag (members.get? member).isSome)
    | .members => pure (.array (members.keys.map bulk))
    | .add incoming =>
      let (members, added) := incoming.foldl setPut (members, 0)
      if 0 < added then storeWithinQuota key (.set members) expiry (.integer added)
      else pure (.integer added)
    | .remove incoming =>
      let (members, count) := incoming.foldl countErase (members, 0)
      if 0 < count then storeOrRemove key members.isEmpty (.set members) expiry (.integer count)
      else pure (.integer count)

/-- Insert a scored member, counting new members and noting any change. -/
def scorePut (state : SortedSet × Nat × Bool) (entry : Score × Bytes) : SortedSet × Nat × Bool :=
  let (created, changed, members) := state.1.insert entry.2 entry.1
  (members, if created then state.2.1 + 1 else state.2.1, state.2.2 || changed)

def scoreErase (state : SortedSet × Nat) (member : Bytes) : SortedSet × Nat :=
  let (found, members) := state.1.remove member
  (members, if found then state.2 + 1 else state.2)

def sortedSet (key : Bytes) (operation : SortedSetCommand) (now : Nat) : StoreM Reply :=
  withCollection Value.asSortedSet SortedSet.empty key now fun members expiry =>
    match operation with
    | .card => pure (.integer members.len)
    | .score member => pure (.bulk ((members.get member).map Score.toBytes))
    | .range start stop withScores =>
      pure (.array (((range members.len start stop).map fun (first, last) =>
        ((members.iter.drop first).take (last - first)).flatMap fun (score, member) =>
          if withScores then [bulk member, bulk score.toBytes] else [bulk member]).getD []))
    | .add entries =>
      let (members, added, changed) := entries.foldl scorePut (members, 0, false)
      if changed then storeWithinQuota key (.sortedSet members) expiry (.integer added)
      else pure (.integer added)
    | .remove incoming =>
      let (members, count) := incoming.foldl scoreErase (members, 0)
      if 0 < count then
        storeOrRemove key members.isEmpty (.sortedSet members) expiry (.integer count)
      else pure (.integer count)

/-! ### Strings -/

/-- The integer a key holds, zero when absent. -/
def previousInteger (entry : Option Image) : Except ExecutionError Int :=
  match entry with
  | none => .ok 0
  | some image =>
    match image.value.asString with
    | none => .error .wrongType
    | some value =>
      match parseDecimal value with
      | some value => .ok value
      | none => .error .invalidInteger

def increment (key : Bytes) (delta : Int) (now : Nat) : StoreM Reply := do
  expireKey key now
  let entry ← lookup key
  match previousInteger entry with
  | .error error => pure (.error error)
  | .ok previous =>
    match Machine.toI64 (previous + delta) with
    | none => pure (.error .integerOverflow)
    | some value =>
      storeWithinQuota key (.string (Bytes.decimal value)) (entry.bind Image.expiry) (.integer value)

/-- The deadline SET asks for: `none` is a rejected expiry. -/
def setDeadline (clock : Clock) (expiry : SetExpiry) (now : Nat) : Option (Option (Nat × Int)) :=
  match expiry with
  | .after duration =>
    match Machine.toI64 (duration / nanosPerMilli : Nat) with
    | none => none
    | some millis =>
      if 0 < millis then (clock.deadline millis now).map some else none
  | .persistent | .keep => some none

def set (key value : Bytes) (options : SetOptions) (now : Nat) : StoreM Reply := do
  match setDeadline (← clock) options.expiry now with
  | none => pure (.error .invalidSetExpiry)
  | some deadline =>
    expireKey key now
    let previous ← lookup key
    if options.returnPrevious && previous.any (fun image => image.value.asString.isNone) then
      pure (.error .wrongType)
    else
      let reply := if options.returnPrevious then
        Reply.bulk (previous.bind fun image => image.value.asString) else .ok
      if (options.condition = .missing && previous.isSome)
          || (options.condition = .present && previous.isNone) then
        pure (if options.returnPrevious then reply else .bulk none)
      else
        let expiry := if options.expiry = .keep then previous.bind Image.expiry else deadline
        storeWithinQuota key (.string value) expiry reply

def ExpiryUnit.commandName : ExpiryUnit → String
  | seconds => "expire"
  | milliseconds => "pexpire"

def ExpiryUnit.millis (unit : ExpiryUnit) (value : Int) : Option Int :=
  match unit with
  | seconds => Machine.toI64 (value * 1000)
  | milliseconds => some value

def expire (key : Bytes) (value : Int) (unit : ExpiryUnit) (now : Nat) : StoreM Reply := do
  let clock ← clock
  match unit.millis value with
  | none => pure (.error (.invalidExpiry unit.commandName))
  | some millis =>
    let deadline := if 0 < millis then clock.deadline millis now else none
    if 0 < millis && deadline.isNone then pure (.error (.invalidExpiry unit.commandName))
    else
      expireKey key now
      let entry ← lookup key
      match entry with
      | none => pure (.integer 0)
      | some image =>
        if millis ≤ 0 then
          let _ ← remove key
          pure (.integer 1)
        else
          insert key image.value deadline
          pure (.integer 1)

def persist (key : Bytes) (now : Nat) : StoreM Reply := do
  expireKey key now
  let entry ← lookup key
  match entry with
  | none => pure (.integer 0)
  | some image =>
    if image.expiresAt.isNone then pure (.integer 0)
    else
      insert key image.value none
      pure (.integer 1)

/-- Remaining time, in milliseconds or rounded seconds. -/
def remaining (deadline now : Nat) (milliseconds : Bool) : Int :=
  let ttl := (deadline - now) / nanosPerMilli
  let result := if milliseconds then ttl else (ttl + 500) / 1000
  min (result : Int) Machine.i64Max

def ttl (key : Bytes) (milliseconds : Bool) (now : Nat) : StoreM Reply := do
  expireKey key now
  let entry ← lookup key
  match entry with
  | none => pure (.integer (-2))
  | some image =>
    match image.expiresAt with
    | none => pure (.integer (-1))
    | some deadline => pure (.integer (remaining deadline now milliseconds))

/-! ### Several keys -/

def getValue (key : Bytes) (now : Nat) : StoreM Reply := do
  expireKey key now
  let entry ← lookup key
  match entry with
  | none => pure (.bulk none)
  | some image =>
    match image.value.asString with
    | some value => pure (bulk value)
    | none => pure (.error .wrongType)

def delStep (now : Nat) (count : Nat) (key : Bytes) : StoreM Nat := do
  expireKey key now
  let entry ← remove key
  pure (if entry.isSome then count + 1 else count)

def existsStep (now : Nat) (count : Nat) (key : Bytes) : StoreM Nat := do
  expireKey key now
  let entry ← lookup key
  pure (if entry.isSome then count + 1 else count)

def mGetStep (now : Nat) (replies : List Reply) (key : Bytes) : StoreM (List Reply) := do
  expireKey key now
  let entry ← lookup key
  pure (replies ++ [.bulk (entry.bind fun image => image.value.asString)])

/-- Subtract the charge of the entry a pair replaces. -/
def msetRelease (base : Nat) (key : Bytes) : StoreM Nat := do
  let entry ← lookup key
  match entry with
  | none => pure base
  | some image =>
    raiseWhen ((entryBytes key image.value).all (base < ·))
    pure (base - Store.charge key image.value)

def msetCharge (usage : Nat) (entry : Bytes × Bytes) : Option Nat :=
  (entryBytes entry.1 (.string entry.2)).bind fun bytes => Machine.checkedAdd usage bytes

def removeKeys (keys : List Bytes) : StoreM Unit :=
  keys.foldlM (fun _ key => do let _ ← remove key) ()

def insertPairs (pairs : List (Bytes × Bytes)) : StoreM Unit :=
  pairs.foldlM (fun _ pair => insert pair.1 (.string pair.2) none) ()

/-- Replace all pairs or none; the last pair of a key prevails. -/
def mset (pairs : List (Bytes × Bytes)) (now : Nat) : StoreM Reply := do
  let entries := OrdMap.ofList pairs
  entries.keys.foldlM (fun _ key => expireKey key now) ()
  let used ← usedBytes
  let base ← entries.keys.foldlM msetRelease used
  let quota ← maxDatasetBytes
  if (entries.entries.foldlM msetCharge base).any fun usage => usage ≤ quota || usage ≤ used then
    removeKeys entries.keys
    insertPairs entries.entries
    pure .ok
  else pure (.error .outOfMemory)

/-! ### Dispatch -/

def executeInner (command : Command) : StoreM Reply := do
  let now := (← clock).now
  match command with
  | .memory .. => pure (.error (.memory "ERR memory commands require native preparation"))
  | .info _ => pure (.error .connectionOnly)
  | .hash key operation => hash key operation now
  | .list key operation => list key operation now
  | .setCollection key operation => setCollection key operation now
  | .sortedSet key operation => sortedSet key operation now
  | .ping none => pure .pong
  | .ping (some message) | .echo message => pure (bulk message)
  | .get key => getValue key now
  | .set key value => set key value {} now
  | .setWithOptions key value options => set key value options now
  | .del keys =>
    let count ← keys.foldlM (delStep now) 0
    pure (.integer count)
  | .exists keys =>
    let count ← keys.foldlM (existsStep now) 0
    pure (.integer count)
  | .mGet keys =>
    let replies ← keys.foldlM (mGetStep now) []
    pure (.array replies)
  | .mSet entries => mset entries now
  | .incr key => increment key 1 now
  | .decr key => increment key (-1) now
  | .expire key value unit => expire key value unit now
  | .ttl key milliseconds => ttl key milliseconds now
  | .persist key => persist key now
  | .multi | .exec | .discard | .watch _ | .unwatch | .subscribe _ | .unsubscribe _
  | .publish .. => pure (.error .connectionOnly)

end Sider
