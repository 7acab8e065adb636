/-
**What reaches the subscribers.**

A hub is driven by its connections: they subscribe, publish, read their queues, run transactions and go.
`Hub.record` notes what can be seen of a run: who connected and went, what each asked to join and leave,
what each publication returned and which messages each connection was handed. `Client.read` reads off it
alone what a connection was to receive: the messages of the channels it had joined, in order, up to the
first for which its queue had no room. `run_delivered` proves that in every run this is what the connection
was handed with what is still pending, and that the registry is consistent.
-/

import Sider.PubSub.Registry
import Sider.Resp.Encoder
import Mathlib.Data.Finset.Card

namespace Sider

open Resp Multimap FailingProgram

namespace PubSub

/-! ### Transactions -/

/-- What a transaction on a connection reads besides the registry. -/
structure ExecContext where
  finite : Bytes → Bool
  limits : RespLimits
  info : InfoSections → Bytes

namespace ExecContext

variable (context : ExecContext)

/-- The message fits in a frame. -/
def fits (message : Message) : Bool :=
  (encode context.finite context.limits message.toFrame []).1.toBool

/-- Confirmations as the connection's protocol has them, or the error as a reply. -/
def confirmed (resp3 : Bool) : Except PubSubError (List Message × List Frame) → List Frame
  | .ok (earlier, confirmations) => (earlier.map Message.toFrame ++ confirmations).map (push resp3)
  | .error error => [errorFrame error.text]

/-- The frames of one command of a transaction. -/
def command (id : Nat) (guard : Subscription) (h : Hub) (item : Command × Reply) : List Frame × Hub :=
  match item.1 with
  | .info sections => ([bulkFrame (context.info sections)], h)
  | .subscribe channels =>
    let run := (subscribeLocked id guard.maxChannels channels false).run.run h
    (confirmed guard.resp3 run.1, run.2)
  | .unsubscribe channels =>
    let run := (unsubscribeLocked id channels false).run.run h
    (confirmed guard.resp3 run.1, run.2)
  | .publish channel payload =>
    if context.fits ⟨channel, payload⟩ then
      let published := h.publish ⟨channel, payload⟩
      ([integerFrame published.1], published.2)
    else ([errorFrame "ERR pubsub message exceeds response limit"], h)
  | .ping payload =>
    if h.active id && !guard.resp3 then
      ([arrayFrame [bulkFrame (Bytes.ascii "pong"), bulkFrame (payload.getD [])]], h)
    else if guard.resp3 then ([commandResp3 item.1 item.2.toFrame], h)
    else ([item.2.toFrame], h)
  | command => ([if guard.resp3 then commandResp3 command item.2.toFrame else item.2.toFrame], h)

def commands (id : Nat) (guard : Subscription) :
    List (Command × Reply) → List Frame × Hub → List Frame × Hub
  | [], state => state
  | item :: items, state =>
    let step := context.command id guard state.2 item
    commands id guard items (state.1 ++ step.1, step.2)

/-- The frames of a transaction, with the header of its commands; `none` where the source asserts that
there are enough frames. -/
def encodeExec (count : Nat) (frames : List Frame) : Option (Except EncodeError Bytes) :=
  if frames.length < count then none
  else
    match encode context.finite context.limits (arrayFrame frames) [] with
    | (.error error, _) => some (.error error)
    | (.ok (), output) =>
      some (.ok (line .array (Bytes.decimal count) ++
        output.drop (line .array (Bytes.decimal frames.length)).length))

/-- Run the commands of a transaction under one lock: their frames, and the messages to the connection
itself. -/
def transact (id : Nat) (guard : Subscription) (items : List (Command × Reply)) (h : Hub) :
    List Frame × List Message × Hub :=
  let ran := context.commands id guard items ([], h)
  let drained := (drain id).run.run ran.2
  (ran.1, drained.1.toOption.getD [], drained.2)

/-- The response to a transaction; messages to the connection itself come last. -/
def completeExec (id : Nat) (guard : Subscription) (items : List Command) (replies : List Reply)
    (h : Hub) : Option (Except EncodeError Bytes) × Hub :=
  let (frames, late, h) := context.transact id guard (items.zip replies) h
  (context.encodeExec items.length
    (frames ++ late.map fun message => push guard.resp3 message.toFrame), h)

end ExecContext

/-! ### Runs -/

/-- What connections do to the hub. -/
inductive Event where
  | connect (maxChannels capacity : Nat)
  | protocol (id : Nat) (resp3 : Bool)
  | subscribe (id : Nat) (channels : List Bytes)
  | unsubscribe (id : Nat) (channels : List Bytes)
  | publish (message : Message)
  | receive (id : Nat)
  | exec (id : Nat) (context : ExecContext) (commands : List Command) (replies : List Reply)
  | drop (id : Nat)

namespace Hub

/-- Receive one message, if there is one. -/
def tryMessage (h : Hub) (id : Nat) : Option Message × Hub :=
  match h.guards.get? id with
  | none => (none, h)
  | some guard =>
    match guard.queue.tryRecv with
    | none => (none, h)
    | some (message, queue) =>
      (some message, { h with guards := h.guards.insert id { guard with queue := queue } })

/-- Only a connection with a guard can act. -/
def perform (h : Hub) : Event → Hub
  | .connect maxChannels capacity =>
    match h.connect maxChannels capacity with
    | .ok (_, next) => next
    | .error _ => h
  | .protocol id resp3 => { h with guards := h.guards.modify id ({ · with resp3 := resp3 }) }
  | .subscribe id channels =>
    match h.guards.get? id with
    | none => h
    | some guard => ((subscribeLocked id guard.maxChannels channels true).run.run h).2
  | .unsubscribe id channels =>
    match h.guards.get? id with
    | none => h
    | some _ => ((unsubscribeLocked id channels true).run.run h).2
  | .publish message => (h.publish message).2
  | .receive id => (h.tryMessage id).2
  | .exec id context commands replies =>
    match h.guards.get? id with
    | none => h
    | some guard => (context.completeExec id guard commands replies h).2
  | .drop id => h.drop id

def run (h : Hub) (events : List Event) : Hub :=
  events.foldl perform h

end Hub

/-! ### What can be seen of a run -/

/-- What a connection did, or was handed. -/
inductive Deed where
  | subscribe (channels : List Bytes)
  | unsubscribe (channels : List Bytes)
  | handed (messages : List Message)

/-- What can be seen of the hub from outside; a publication with its reply. -/
inductive Act where
  | connected (id maxChannels capacity : Nat)
  | did (id : Nat) (deed : Deed)
  | published (message : Message) (reply : List Frame)
  | dropped (id : Nat)

/-- The messages that precede the confirmations in a response. -/
def earlier (result : Except PubSubError (List Message × List Frame)) : List Message :=
  (result.toOption.map Prod.fst).getD []

/-- A change of channels, with the messages its response hands over. -/
def changed (result : Except PubSubError (List Message × List Frame)) (deed : Deed) : List Deed :=
  [.handed (earlier result), deed]

namespace ExecContext

variable (context : ExecContext)

/-- What is seen of one command of a transaction. -/
def observed (id : Nat) (guard : Subscription) (h : Hub) (item : Command × Reply) : List Act :=
  match item.1 with
  | .subscribe channels =>
    (changed ((subscribeLocked id guard.maxChannels channels false).run.run h).1
      (.subscribe channels)).map (.did id)
  | .unsubscribe channels =>
    (changed ((unsubscribeLocked id channels false).run.run h).1 (.unsubscribe channels)).map (.did id)
  | .publish channel payload =>
    if context.fits ⟨channel, payload⟩ then
      [.published ⟨channel, payload⟩ (context.command id guard h item).1]
    else []
  | _ => []

def record (id : Nat) (guard : Subscription) : List (Command × Reply) → Hub → List Act
  | [], _ => []
  | item :: items, h =>
    context.observed id guard h item ++ record id guard items (context.command id guard h item).2

end ExecContext

namespace Hub

/-- What is seen of one event. -/
def observed (h : Hub) : Event → List Act
  | .connect maxChannels capacity =>
    match h.connect maxChannels capacity with
    | .ok (id, _) => [.connected id maxChannels capacity]
    | .error _ => []
  | .protocol _ _ => []
  | .subscribe id channels =>
    match h.guards.get? id with
    | none => []
    | some guard =>
      (changed ((subscribeLocked id guard.maxChannels channels true).run.run h).1
        (.subscribe channels)).map (.did id)
  | .unsubscribe id channels =>
    match h.guards.get? id with
    | none => []
    | some _ =>
      (changed ((unsubscribeLocked id channels true).run.run h).1 (.unsubscribe channels)).map (.did id)
  | .publish message => [.published message [integerFrame (h.publish message).1]]
  | .receive id => [.did id (.handed (h.tryMessage id).1.toList)]
  | .exec id context commands replies =>
    match h.guards.get? id with
    | none => []
    | some guard =>
      context.record id guard (commands.zip replies) h ++
        [.did id (.handed (context.transact id guard (commands.zip replies) h).2.1)]
  | .drop id => [.dropped id]

def record (h : Hub) : List Event → List Act
  | [] => []
  | event :: events => h.observed event ++ (h.perform event).record events

end Hub

/-- What is known of a connection: the channels it has joined, the messages it was to receive and those it
was handed, and whether it was removed because there was no room for one. -/
structure Client where
  maxChannels : Nat
  capacity : Nat
  joined : Finset Bytes
  due : List Message
  taken : List Message
  removed : Bool

namespace Client

def new (maxChannels capacity : Nat) : Client :=
  ⟨maxChannels, capacity, ∅, [], [], false⟩

/-- A connection that was removed joins nothing, nor does one that would have too many channels. -/
def after (client : Client) : Deed → Client
  | .subscribe channels =>
    if client.removed = false ∧ (channels.toFinset ∪ client.joined).card ≤ client.maxChannels then
      { client with joined := channels.toFinset ∪ client.joined }
    else client
  | .unsubscribe channels =>
    { client with joined := if channels = [] then ∅ else client.joined \ channels.toFinset }
  | .handed messages => { client with taken := client.taken ++ messages }

/-- Less is waiting for the connection than its queue holds. -/
def hasRoom (client : Client) : Bool :=
  client.due.length < client.taken.length + client.capacity

def accepts (client : Client) (message : Message) : Bool :=
  message.channel ∈ client.joined && client.hasRoom

/-- A publication is for who has joined its channel; without room the connection is removed. -/
def offered (client : Client) (message : Message) : Client :=
  if message.channel ∈ client.joined then
    if client.hasRoom then { client with due := client.due ++ [message] }
    else { client with joined := ∅, removed := true }
  else client

def note (id : Nat) (client : Client) : Act → Client
  | .connected other maxChannels capacity => if other = id then new maxChannels capacity else client
  | .did other deed => if other = id then client.after deed else client
  | .published message _ => client.offered message
  | .dropped _ => client

def read (id : Nat) (acts : List Act) : Client :=
  acts.foldl (note id) (new 0 0)

end Client

/-- The connections that have not gone. -/
def connections (acts : List Act) : List Nat :=
  acts.foldl (fun ids act =>
    match act with
    | .connected id _ _ => ids ++ [id]
    | .dropped id => ids.filter (· ≠ id)
    | _ => ids) []

/-- How many connections accept a message. -/
def accepting (message : Message) (acts : List Act) : Nat :=
  ((connections acts).filter fun id => (Client.read id acts).accepts message).length

/-! ### Programs of one connection -/

variable {next mid start h : Hub} {id probe : Nat} {guard : Subscription} {channels : OrdSet Bytes}

namespace Hub

/-- A connection does not notice the change. -/
structure Apart (h next : Hub) (id : Nat) : Prop where
  subscribers : next.subscribers.get? id = h.subscribers.get? id
  guards : next.guards.get? id = h.guards.get? id

theorem Apart.refl (h : Hub) (id : Nat) : Apart h h id := ⟨rfl, rfl⟩

theorem Apart.trans (first : Apart h mid id) (second : Apart mid next id) : Apart h next id :=
  ⟨second.subscribers.trans first.subscribers, second.guards.trans first.guards⟩

theorem apart_withGuard (other : probe ≠ id) (guard : Subscription) :
    Apart h { h with guards := h.guards.insert id guard } probe :=
  ⟨rfl, OrdMap.get?_insert_of_ne _ _ other⟩

theorem apart_remove (other : probe ≠ id) : Apart h (h.remove id) probe := by
  cases found : h.subscribers.get? id with
  | none =>
    unfold remove
    rw [found]
    exact .refl h probe
  | some channels =>
    rw [remove_eq found]
    exact ⟨OrdMap.get?_erase_of_ne _ other, by
      rw [OrdMap.get?_modify, if_neg other]⟩

theorem apart_drop (other : probe ≠ id) : Apart h (h.drop id) probe :=
  (apart_remove other).trans ⟨rfl, OrdMap.get?_erase_of_ne _ other⟩

theorem apart_connect {maxChannels capacity : Nat} (ok : h.connect maxChannels capacity = .ok (id, next))
    (other : probe ≠ id) : Apart h next probe := by
  unfold connect at ok
  split at ok
  · cases ok
  · cases ok
    exact ⟨OrdMap.get?_insert_of_ne _ _ other, OrdMap.get?_insert_of_ne _ _ other⟩

/-- A program of one connection: nobody comes or goes, and no other connection notices it. -/
structure Private (start : Hub) (id : Nat) (h : Hub) : Prop where
  consistent : h.Consistent
  nextId : h.nextId = start.nextId
  subscribers : id ∈ h.subscribers ↔ id ∈ start.subscribers
  guards : id ∈ h.guards ↔ id ∈ start.guards
  apart : ∀ probe, probe ≠ id → Apart start h probe

theorem Consistent.private (holds : h.Consistent) (id : Nat) : Private h id h :=
  ⟨holds, rfl, Iff.rfl, Iff.rfl, fun probe _ => .refl h probe⟩

theorem Private.trans (first : Private start id h) (second : Private h id next) :
    Private start id next :=
  ⟨second.consistent, second.nextId.trans first.nextId, second.subscribers.trans first.subscribers,
    second.guards.trans first.guards, fun probe other =>
      (first.apart probe other).trans (second.apart probe other)⟩

theorem Private.mem_guards (kept : Private start id h) (probe : Nat) :
    probe ∈ h.guards ↔ probe ∈ start.guards := by
  by_cases same : probe = id
  · rw [same]
    exact kept.guards
  · rw [OrdMap.mem_iff, OrdMap.mem_iff, (kept.apart probe same).guards]

/-- Reading a queue, or changing the protocol of its connection. -/
theorem Consistent.seat (holds : h.Consistent) (found : h.guards.get? id = some guard)
    {after : Subscription} (marked : after.evicted = guard.evicted) :
    Private h id { h with guards := h.guards.insert id after } :=
  ⟨holds.withGuard found marked, rfl, Iff.rfl, mem_replace found id, fun _ other => apart_withGuard other _⟩

theorem private_tryMessage (holds : h.Consistent) (id : Nat) : Private h id (h.tryMessage id).2 := by
  unfold tryMessage
  split
  · exact holds.private id
  · rename_i guard found
    split
    · exact holds.private id
    · exact holds.seat found rfl

/-- How a change of the channels of a subscriber is recorded. -/
structure Changes (change : Hub → Nat → OrdSet Bytes → Bytes → Hub)
    (after : OrdSet Bytes → Bytes → OrdSet Bytes) : Prop where
  consistent : ∀ {h id channels} (channel : Bytes), h.Consistent → h.subscribers.get? id = some channels →
    (change h id channels channel).Consistent
  subscribers : ∀ h id channels channel, (change h id channels channel).subscribers =
    h.subscribers.insert id (after channels channel)
  guards : ∀ h id channels channel, (change h id channels channel).guards = h.guards
  nextId : ∀ h id channels channel, (change h id channels channel).nextId = h.nextId

theorem changes_join : Changes join OrdMap.add :=
  ⟨fun channel holds found => holds.join found channel, fun _ _ _ _ => rfl, fun _ _ _ _ => rfl,
    fun _ _ _ _ => rfl⟩

theorem changes_part : Changes part OrdMap.erase :=
  ⟨fun channel holds found => holds.part found channel, fun _ _ _ _ => rfl, fun _ _ _ _ => rfl,
    fun _ _ _ _ => rfl⟩

/-- A connection has some channels and its guard; the rest is as it was. -/
structure Seated (start : Hub) (id : Nat) (guard : Subscription) (members : Bytes → Prop) (h : Hub) :
    Prop where
  own : Private start id h
  guard : h.guards.get? id = some guard
  channels : ∃ channels, h.subscribers.get? id = some channels ∧
    ∀ channel, channel ∈ channels ↔ members channel

end Hub

/-- The guard of a connection whose queue was drained. -/
def Subscription.emptied (guard : Subscription) : Subscription :=
  { guard with queue := .new guard.queue.capacity }

section Programs

open Hub

theorem run_drain (id : Nat) (h : Hub) :
    (drain id).run.run h =
      match h.guards.get? id with
      | none => (.ok [], h)
      | some guard =>
        (.ok guard.queue.pending, { h with guards := h.guards.insert id guard.emptied }) := by
  show (match h.guards.get? id with
    | none => pure []
    | some guard => do
      modify fun h => { h with guards := h.guards.insert id { guard with queue := guard.queue.drain.2 } }
      pure guard.queue.drain.1 : HubM (List Message)).run.run h = _
  cases h.guards.get? id with
  | none => rfl
  | some guard =>
    show (Except.ok guard.queue.drain.1, _) = _
    rw [Channel.drain_eq]
    rfl

theorem private_drain (holds : h.Consistent) (id : Nat) : Private h id ((drain id).run.run h).2 := by
  rw [run_drain]
  split
  · exact holds.private id
  · rename_i guard found
    exact holds.seat found rfl

theorem drainWhen_triple (holds : start.Consistent) (found : start.guards.get? id = some guard)
    (joined : start.subscribers.get? id = some channels) (drainMessages : Bool) :
    Triple (· = start) (drainWhen id drainMessages)
      (fun messages h => messages = (if drainMessages then guard.queue.pending else []) ∧
        Seated start id (if drainMessages then guard.emptied else guard) (· ∈ channels) h)
      fun _ => False := by
  rintro h rfl
  unfold drainWhen
  split_ifs
  · rw [run_drain, found]
    exact ⟨rfl, holds.seat found rfl, OrdMap.get?_insert_self _ _ _, channels, joined, fun _ => Iff.rfl⟩
  · exact ⟨rfl, holds.private id, found, channels, joined, fun _ => Iff.rfl⟩

section

variable {change : Hub → Nat → OrdSet Bytes → Bytes → Hub} {after : OrdSet Bytes → Bytes → OrdSet Bytes}
  (changes : Changes change after) (kind : String)

include changes

theorem changeChannel_triple {members : Bytes → Prop} (channel : Bytes) :
    Triple (Seated start id guard members) (changeChannel kind change after id channel)
      (fun _ h => ∃ set : OrdSet Bytes, (∀ other, other ∈ set ↔ members other) ∧
        Seated start id guard (· ∈ after set channel) h) fun _ => False := by
  rintro h ⟨own, held, set, joined, same⟩
  have ran : (changeChannel kind change after id channel).run.run h =
      (.ok (confirmation kind (some channel) (after set channel).size), change h id set channel) := by
    unfold changeChannel
    rw [run_bind, run_subscribed, joined]
    rfl
  have subscribers := changes.subscribers h id set channel
  rw [ran]
  refine ⟨set, same, own.trans ⟨changes.consistent channel own.consistent joined,
    changes.nextId .., ?_, ?_, fun probe other => ⟨?_, ?_⟩⟩, ?_, after set channel, ?_, fun _ => Iff.rfl⟩
  · rw [subscribers]
    exact mem_replace joined id
  · rw [changes.guards]
  · rw [subscribers]
    exact OrdMap.get?_insert_of_ne _ _ other
  · rw [changes.guards]
  · rw [changes.guards]
    exact held
  · rw [subscribers]
    exact OrdMap.get?_insert_self _ _ _

/-- **The channels of a connection change one by one**, after what was pending if it is drained first. -/
theorem changeChannels_triple (holds : start.Consistent) (found : start.guards.get? id = some guard)
    (joined : start.subscribers.get? id = some channels) (drainMessages : Bool) (list : List Bytes)
    (finish : List Frame → List Frame) (members : List Bytes → Bytes → Prop)
    (begins : ∀ channel, channel ∈ channels ↔ members [] channel)
    (grows : ∀ done channel (set : OrdSet Bytes), (∀ other, other ∈ set ↔ members done other) →
      ∀ other, other ∈ after set channel ↔ members (done ++ [channel]) other) :
    Triple (· = start)
      (do
        let earlier ← drainWhen id drainMessages
        let confirmations ← list.mapM (changeChannel kind change after id)
        return (earlier, finish confirmations))
      (fun result h => result.1 = (if drainMessages then guard.queue.pending else []) ∧
        Seated start id (if drainMessages then guard.emptied else guard) (members list) h)
      fun _ => False := by
  refine (drainWhen_triple holds found joined drainMessages).bind fun messages => ?_
  refine Triple.given fun exact => ?_
  have loop : Triple
      (Seated start id (if drainMessages = true then guard.emptied else guard) (members []))
      (list.mapM (changeChannel kind change after id))
      (fun _ => Seated start id (if drainMessages = true then guard.emptied else guard) (members list))
      fun _ => False :=
    Triple.mapM (fun done _ => Seated start id _ (members done)) fun done _ channel _ _ =>
      (changeChannel_triple changes kind channel).after fun _ _ ⟨set, same, own, held, now, joined, is⟩ =>
        ⟨own, held, now, joined, fun other => (is other).trans (grows done channel set same other)⟩
  refine (loop.weaken (fun h ⟨own, held, now, joined, is⟩ =>
    ⟨own, held, now, joined, fun channel => (is channel).trans (begins channel)⟩) (fun _ _ kept => kept)
    fun _ none => none).bind fun _ => ?_
  exact Triple.pure fun _ seated => ⟨exact, seated⟩

end

/-- A change of the channels of a connection is refused, and the hub stays as it was, or the connection
has other channels and was handed what was pending, if it was drained. -/
def Alters (h : Hub) (id : Nat) (guard : Subscription) (drainMessages : Bool)
    (program : HubM (List Message × List Frame)) (granted : OrdSet Bytes → Prop)
    (members : OrdSet Bytes → Bytes → Prop) : Prop :=
  (∃ error, program.run.run h = (.error error, h) ∧
      ∀ channels, h.subscribers.get? id = some channels → ¬granted channels) ∨
    ∃ channels confirmations next, h.subscribers.get? id = some channels ∧ granted channels ∧
      program.run.run h =
        (.ok (if drainMessages then guard.queue.pending else [], confirmations), next) ∧
      Seated h id (if drainMessages then guard.emptied else guard) (members channels) next

theorem Alters.private {drainMessages : Bool} {program : HubM (List Message × List Frame)}
    {granted : OrdSet Bytes → Prop} {members : OrdSet Bytes → Bytes → Prop}
    (alters : Alters h id guard drainMessages program granted members) (holds : h.Consistent) :
    Private h id (program.run.run h).2 := by
  rcases alters with ⟨error, ran, _⟩ | ⟨channels, confirmations, next, _, _, ran, seated⟩ <;> rw [ran]
  · exact holds.private id
  · exact seated.own

section

variable (holds : h.Consistent) (found : h.guards.get? id = some guard)

include holds found

/-- **Subscribing**: the connection has the channels too. -/
theorem subscribeLocked_alters (maxChannels : Nat) (list : List Bytes) (drainMessages : Bool) :
    Alters h id guard drainMessages (subscribeLocked id maxChannels list drainMessages)
      (fun channels => (OrdMap.ofKeys (list ++ channels.keys)).size ≤ maxChannels)
      fun channels channel => channel ∈ list ∨ channel ∈ channels := by
  unfold Alters subscribeLocked
  rw [run_bind, run_subscribed]
  cases joined : h.subscribers.get? id with
  | none => exact .inl ⟨.closed, rfl, nofun⟩
  | some channels =>
    dsimp only
    by_cases many : maxChannels < (OrdMap.ofKeys (list ++ channels.keys)).size
    · rw [if_pos many]
      refine .inl ⟨.channelLimit, rfl, fun _ same => ?_⟩
      cases same
      exact Nat.not_le.mpr many
    · rw [if_neg many]
      obtain ⟨⟨_, confirmations⟩, next, ran, rfl, seated⟩ :=
        (changeChannels_triple changes_join "subscribe" holds found joined drainMessages list
          (fun frames => frames) (fun done channel => channel ∈ done ∨ channel ∈ channels)
          (fun _ => by simp) fun done channel set same other => by
            rw [OrdMap.mem_add, same, List.mem_append, List.mem_singleton, or_comm,
              or_right_comm]).returns rfl
      exact .inr ⟨channels, confirmations, next, rfl, Nat.le_of_not_lt many, ran, seated⟩

/-- **Unsubscribing**: the connection has the other channels. -/
theorem unsubscribeLocked_alters (list : List Bytes) (drainMessages : Bool) :
    Alters h id guard drainMessages (unsubscribeLocked id list drainMessages) (fun _ => True)
      fun channels channel => channel ∈ channels ∧ list ≠ [] ∧ channel ∉ list := by
  unfold Alters unsubscribeLocked
  rw [run_bind, run_subscribed]
  cases joined : h.subscribers.get? id with
  | none => exact .inl ⟨.closed, rfl, nofun⟩
  | some channels =>
    dsimp only
    generalize leaves : (if list.isEmpty = true then channels.keys else list) = left
    obtain ⟨⟨_, confirmations⟩, next, ran, rfl, seated⟩ :=
      (changeChannels_triple changes_part "unsubscribe" holds found joined drainMessages left
        (fun frames => (if left.isEmpty = true then [confirmation "unsubscribe" none 0] else []) ++ frames)
        (fun done channel => channel ∈ channels ∧ channel ∉ done) (fun _ => by simp)
        fun done channel set same other => by
          rw [OrdMap.mem_erase, same, List.mem_append, List.mem_singleton]
          tauto).returns rfl
    refine .inr ⟨channels, confirmations, next, rfl, trivial, ran, seated.own, seated.guard, ?_⟩
    obtain ⟨now, entry, members⟩ := seated.channels
    refine ⟨now, entry, fun channel => (members channel).trans ?_⟩
    rw [← leaves]
    cases list with
    | nil => simp [OrdMap.mem_keys]
    | cons first rest => simp

end

end Programs

/-! ### One publication -/

/-- What an offered message does to a guard. -/
def Subscription.offered (message : Message) (guard : Subscription) : Subscription :=
  match guard.queue.trySend message with
  | some queue => { guard with queue := queue }
  | none => { guard with evicted := true }

namespace Hub

/-- The queue of a connection has room. -/
def hasRoom (h : Hub) (id : Nat) : Bool :=
  (h.guards.get? id).any fun guard => guard.queue.hasRoom

/-- What offering a message to some subscribers does: the queues with room accept it, and the
subscribers without are removed. -/
structure Offered (h : Hub) (message : Message) (reached : List Nat) (state : Nat × Hub) : Prop where
  consistent : state.2.Consistent
  nextId : state.2.nextId = h.nextId
  subscribers : ∀ id, state.2.subscribers.get? id =
    if id ∈ reached ∧ h.hasRoom id = false then none else h.subscribers.get? id
  guards : ∀ id, state.2.guards.get? id =
    (h.guards.get? id).map fun guard => if id ∈ reached then guard.offered message else guard
  counted : state.1 = (reached.filter h.hasRoom).length

variable {message : Message} {reached : List Nat} {state : Nat × Hub}

theorem offered_nil (holds : h.Consistent) (message : Message) : Offered h message [] (0, h) :=
  ⟨holds, rfl, fun _ => by simp, fun _ => by simp, rfl⟩

/-- **One subscriber of a publication.** -/
theorem Offered.offer (offered : Offered h message reached state) (fresh : id ∉ reached)
    (own : id ∈ h.subscribers) : Offered h message (reached ++ [id]) (offer message state id) := by
  obtain ⟨channels, joined⟩ := OrdMap.mem_iff.mp own
  have still : state.2.subscribers.get? id = some channels := by
    rw [offered.subscribers, if_neg fun both => fresh both.1, joined]
  obtain ⟨guard, found⟩ := OrdMap.mem_iff.mp
    (offered.consistent.guarded id (OrdMap.mem_iff.mpr ⟨channels, still⟩))
  have before : h.guards.get? id = some guard := by
    have same := offered.guards id
    rw [found] at same
    simpa [fresh] using same.symm
  have room : h.hasRoom id = guard.queue.hasRoom := by
    unfold hasRoom
    rw [before]
    rfl
  have counted : ((reached ++ [id]).filter h.hasRoom).length =
      state.1 + if guard.queue.hasRoom then 1 else 0 := by
    rw [List.filter_append, List.length_append, ← offered.counted, List.filter_singleton, room]
    cases guard.queue.hasRoom <;> rfl
  -- The other guards are as they were, and this one was offered the message.
  have guards : ∀ {next : Hub}, next.guards.get? id = some (guard.offered message) →
      (∀ probe, probe ≠ id → next.guards.get? probe = state.2.guards.get? probe) →
      ∀ probe, next.guards.get? probe = (h.guards.get? probe).map fun guard =>
        if probe ∈ reached ++ [id] then guard.offered message else guard := fun now others probe => by
    by_cases same : probe = id
    · subst same
      simp [now, before]
    · rw [others probe same, offered.guards probe]
      simp [same]
  unfold Hub.offer trySend
  rw [still, Option.bind_some, found, Option.bind_some]
  cases sent : guard.queue.trySend message with
  | some queue =>
    have accepts := (Channel.trySend_eq_some sent).1
    refine ⟨offered.consistent.withGuard found rfl, offered.nextId, fun probe => ?_,
      guards ?_ fun probe other => OrdMap.get?_insert_of_ne _ _ other, ?_⟩
    · show state.2.subscribers.get? probe = _
      rw [offered.subscribers probe]
      by_cases same : probe = id
      · subst same
        simp [fresh, room, accepts]
      · simp [same]
    · unfold Subscription.offered
      rw [sent]
      exact OrdMap.get?_insert_self _ _ _
    · rw [counted, accepts]
      rfl
  | none =>
    have full := Channel.trySend_eq_none.mp sent
    refine ⟨offered.consistent.remove id, ?_, fun probe => ?_,
      guards ?_ fun probe other => (apart_remove other).guards, ?_⟩
    · exact (congrArg Hub.nextId (remove_eq still)).trans offered.nextId
    · show (state.2.remove id).subscribers.get? probe = _
      rw [remove_eq still]
      show (state.2.subscribers.erase id).get? probe = _
      rw [OrdMap.get?_erase, offered.subscribers probe]
      by_cases same : probe = id
      · subst same
        simp [room, full]
      · simp [same]
    · unfold Subscription.offered
      rw [sent]
      show (state.2.remove id).guards.get? id = _
      rw [remove_eq still]
      show (state.2.guards.modify id _).get? id = _
      rw [OrdMap.get?_modify, if_pos rfl, found]
      rfl
    · rw [counted, full]
      rfl

/-- **A whole publication**, subscriber by subscriber. -/
theorem publish_offered (holds : h.Consistent) (message : Message) :
    Offered h message (items h.channels message.channel).keys (h.publish message) := by
  have loop : ∀ (more done : List Nat) (state : Nat × Hub), (done ++ more).Nodup →
      (∀ id ∈ more, id ∈ h.subscribers) → Offered h message done state →
      Offered h message (done ++ more) (more.foldl (Hub.offer message) state) := by
    intro more
    induction more with
    | nil =>
      intro done state _ _ offered
      rw [List.append_nil]
      exact offered
    | cons id others ih =>
      intro done state nodup own offered
      have fresh : id ∉ done := fun inside =>
        (List.nodup_append.mp nodup).2.2 id inside id List.mem_cons_self rfl
      have step := offered.offer fresh (own id List.mem_cons_self)
      have shape : done ++ id :: others = done ++ [id] ++ others := by simp
      rw [shape] at nodup ⊢
      exact ih _ _ nodup (fun other inside => own other (List.mem_cons_of_mem _ inside)) step
  refine loop _ [] (0, h) (items h.channels message.channel).nodup_keys (fun id inside => ?_)
    (offered_nil holds message)
  have joined := (holds.inverse id message.channel).mp (OrdMap.mem_keys.mp inside)
  unfold items at joined
  cases found : h.subscribers.get? id with
  | none =>
    rw [found] at joined
    exact absurd joined (OrdMap.not_mem_empty _)
  | some channels => exact OrdMap.mem_iff.mpr ⟨channels, found⟩

end Hub

/-! ### What is seen agrees with the hub -/

open Hub

variable {acts : List Act} {client : Client} {after : Subscription}

/-- What is known of a connection is how the hub has it. -/
structure Sees (client : Client) (h : Hub) (id : Nat) (guard : Subscription) : Prop where
  limit : guard.maxChannels = client.maxChannels
  capacity : guard.queue.capacity = client.capacity
  registered : id ∈ h.subscribers ↔ client.removed = false
  joined : ∀ channel, channel ∈ items h.subscribers id ↔ channel ∈ client.joined
  queued : client.taken ++ guard.queue.pending = client.due

theorem Sees.room (sees : Sees client h id guard) : client.hasRoom = guard.queue.hasRoom := by
  unfold Client.hasRoom Channel.hasRoom
  rw [← sees.queued, ← sees.capacity, List.length_append, decide_eq_decide]
  omega

/-- Only the entry of the connection matters. -/
theorem Sees.transfer (sees : Sees client h id guard)
    (same : next.subscribers.get? id = h.subscribers.get? id) : Sees client next id guard := by
  refine ⟨sees.limit, sees.capacity, ?_, fun channel => ?_, sees.queued⟩
  · rw [OrdMap.mem_iff, same, ← OrdMap.mem_iff]
    exact sees.registered
  · unfold items
    rw [same]
    exact sees.joined channel

theorem Sees.handed (sees : Sees client h id guard) {messages : List Message}
    (same : messages ++ after.queue.pending = guard.queue.pending)
    (limit : after.maxChannels = guard.maxChannels)
    (capacity : after.queue.capacity = guard.queue.capacity) :
    Sees (client.after (.handed messages)) h id after :=
  ⟨limit.trans sees.limit, capacity.trans sees.capacity, sees.registered, sees.joined, by
    show client.taken ++ messages ++ after.queue.pending = client.due
    rw [List.append_assoc, same, sees.queued]⟩

/-- What a response hands over is what was pending, if it was drained. -/
theorem Sees.drained (sees : Sees client h id guard) (drainMessages : Bool) :
    Sees (client.after (.handed (if drainMessages then guard.queue.pending else []))) h id
      (if drainMessages then guard.emptied else guard) := by
  cases drainMessages
  · exact sees.handed rfl rfl rfl
  · exact sees.handed (List.append_nil _) rfl rfl

/-- The connection has other channels. -/
theorem Sees.seated (sees : Sees client h id guard) (present : client.removed = false)
    {members : Bytes → Prop} (seated : Seated start id guard members next) {joined : Finset Bytes}
    (same : ∀ channel, members channel ↔ channel ∈ joined) :
    Sees { client with joined := joined } next id guard := by
  obtain ⟨channels, found, is⟩ := seated.channels
  refine ⟨sees.limit, sees.capacity, iff_of_true (OrdMap.mem_iff.mpr ⟨channels, found⟩) present,
    fun channel => ?_, sees.queued⟩
  rw [items_of_get? found]
  exact (is channel).trans (same channel)

section Changes

variable (holds : h.Consistent) (found : h.guards.get? id = some guard) (sees : Sees client h id guard)

include holds found sees

variable {result : Except PubSubError (List Message × List Frame)} {list : List Bytes}
  {drainMessages : Bool}

/-- **A request to join channels** is seen as the hub takes it. -/
theorem Sees.subscribe
    (ran : (subscribeLocked id client.maxChannels list drainMessages).run.run h = (result, next))
    (held : next.guards.get? id = some after) :
    Sees ((changed result (.subscribe list)).foldl Client.after client) next id after := by
  have card : ∀ channels, h.subscribers.get? id = some channels →
      (OrdMap.ofKeys (list ++ channels.keys)).size = (list.toFinset ∪ client.joined).card := by
    intro channels joined
    refine size_eq_card fun channel => ?_
    rw [OrdMap.mem_ofKeys, List.mem_append, OrdMap.mem_keys, Finset.mem_union, List.mem_toFinset,
      ← sees.joined, items_of_get? joined]
  rcases subscribeLocked_alters holds found client.maxChannels list drainMessages with
    ⟨error, is, refused⟩ | ⟨channels, confirmations, _, joined, fits, is, seated⟩ <;>
    cases ran.symm.trans is
  · cases found.symm.trans held
    have kept := sees.handed (List.nil_append guard.queue.pending) rfl rfl
    have stays : ¬(client.removed = false ∧ (list.toFinset ∪ client.joined).card ≤ client.maxChannels) := by
      rintro ⟨present, fits⟩
      obtain ⟨channels, joined⟩ := OrdMap.mem_iff.mp (sees.registered.mpr present)
      exact refused channels joined ((card channels joined).trans_le fits)
    have same : (client.after (.handed [])).after (.subscribe list) = client.after (.handed []) :=
      if_neg stays
    show Sees ((client.after (.handed [])).after (.subscribe list)) next id guard
    rw [same]
    exact kept
  · cases seated.guard.symm.trans held
    have present := sees.registered.mp (OrdMap.mem_iff.mpr ⟨channels, joined⟩)
    have grown : ∀ messages, (client.after (.handed messages)).after (.subscribe list) =
        { client.after (.handed messages) with joined := list.toFinset ∪ client.joined } :=
      fun _ => if_pos ⟨present, card channels joined ▸ fits⟩
    show Sees ((client.after (.handed _)).after (.subscribe list)) next id _
    rw [grown]
    refine (sees.drained drainMessages).seated present seated fun channel => ?_
    rw [Finset.mem_union, List.mem_toFinset]
    exact or_congr Iff.rfl (items_of_get? joined ▸ sees.joined channel)

/-- **A request to leave channels** is seen as the hub takes it. -/
theorem Sees.unsubscribe (ran : (unsubscribeLocked id list drainMessages).run.run h = (result, next))
    (held : next.guards.get? id = some after) :
    Sees ((changed result (.unsubscribe list)).foldl Client.after client) next id after := by
  have left : ∀ channel, channel ∈ (if list = [] then ∅ else client.joined \ list.toFinset) ↔
      channel ∈ client.joined ∧ list ≠ [] ∧ channel ∉ list := fun channel => by
    split_ifs with none
    · simp [none]
    · simp [none]
  rcases unsubscribeLocked_alters holds found list drainMessages with
    ⟨error, is, absent⟩ | ⟨channels, confirmations, _, joined, _, is, seated⟩ <;> cases ran.symm.trans is
  · cases found.symm.trans held
    have kept := sees.handed (List.nil_append guard.queue.pending) rfl rfl
    have none : ∀ channel, channel ∉ items next.subscribers id := fun channel inside => by
      obtain ⟨channels, joined, _⟩ := mem_items.mp inside
      exact absent channels joined trivial
    refine ⟨kept.limit, kept.capacity, kept.registered, fun channel => ?_, kept.queued⟩
    exact iff_of_false (none channel) fun inside =>
      none channel ((sees.joined channel).mpr ((left channel).mp inside).1)
  · cases seated.guard.symm.trans held
    have present := sees.registered.mp (OrdMap.mem_iff.mpr ⟨channels, joined⟩)
    refine (sees.drained drainMessages).seated present seated fun channel => ?_
    show _ ↔ channel ∈ (if list = [] then ∅ else client.joined \ list.toFinset)
    rw [left, ← sees.joined, items_of_get? joined]

end Changes

/-! ### The invariant of a run -/

theorem Client.read_append (id : Nat) (acts more : List Act) :
    Client.read id (acts ++ more) = more.foldl (Client.note id) (Client.read id acts) :=
  List.foldl_append

theorem Client.read_deeds (id probe : Nat) (acts : List Act) (deeds : List Deed) :
    Client.read probe (acts ++ deeds.map (.did id)) =
      if id = probe then deeds.foldl Client.after (Client.read probe acts)
      else Client.read probe acts := by
  rw [Client.read_append, List.foldl_map]
  split_ifs with same
  · simp only [Client.note, same, if_true]
  · simp only [Client.note, same, if_false]
    exact List.foldl_fixed _

theorem connections_deeds (id : Nat) (acts : List Act) (deeds : List Deed) :
    connections (acts ++ deeds.map (.did id)) = connections acts := by
  unfold connections
  rw [List.foldl_append, List.foldl_map]
  exact List.foldl_fixed _

/-- Every publication returned the number of the connections that accept it. -/
def Counted (acts : List Act) : Prop :=
  ∀ before message reply rest, acts = before ++ .published message reply :: rest →
    reply = [integerFrame (accepting message before)]

/-- The hub agrees with what was seen. -/
structure Tracks (acts : List Act) (h : Hub) : Prop where
  consistent : h.Consistent
  connected : ∀ id, id ∈ connections acts ↔ id ∈ h.guards
  nodup : (connections acts).Nodup
  sees : ∀ id guard, h.guards.get? id = some guard → Sees (Client.read id acts) h id guard
  counted : Counted acts

theorem tracks_new : Tracks [] Hub.new where
  consistent := consistent_new
  connected := fun id => iff_of_false List.not_mem_nil (OrdMap.not_mem_empty id)
  nodup := List.nodup_nil
  sees := nofun
  counted := fun before _ _ _ none => by simp at none

theorem Counted.append (counted : Counted acts) {more : List Act}
    (quiet : ∀ message reply, Act.published message reply ∉ more) : Counted (acts ++ more) := by
  intro before message reply rest split
  rcases List.append_eq_append_iff.mp split with ⟨later, _, inside⟩ | ⟨later, inside, ends⟩
  · exact absurd (inside ▸ List.mem_append_right _ List.mem_cons_self) (quiet message reply)
  · cases later with
    | nil =>
      rw [List.nil_append] at ends
      exact absurd (ends ▸ List.mem_cons_self) (quiet message reply)
    | cons first others =>
      obtain ⟨rfl, _⟩ := List.cons.inj ends
      exact counted before message reply others inside

theorem Counted.publish (counted : Counted acts) (message : Message) :
    Counted (acts ++ [.published message [integerFrame (accepting message acts)]]) := by
  intro before other reply rest split
  rcases List.append_eq_append_iff.mp split with ⟨later, is, ends⟩ | ⟨later, inside, ends⟩
  · cases later with
    | nil =>
      cases ends
      rw [is, List.append_nil]
    | cons first others => simp at ends
  · cases later with
    | nil =>
      cases ends
      rw [inside, List.append_nil]
    | cons first others =>
      obtain ⟨rfl, _⟩ := List.cons.inj ends
      exact counted before other reply others inside

/-- **A publication**, as each connection sees it. -/
theorem Sees.publish (sees : Sees client h id guard) (holds : h.Consistent)
    (found : h.guards.get? id = some guard) {message : Message}
    (held : (h.publish message).2.guards.get? id = some after) :
    Sees (client.offered message) (h.publish message).2 id after := by
  have offered := publish_offered holds message
  have reached : id ∈ (items h.channels message.channel).keys ↔ message.channel ∈ client.joined := by
    rw [OrdMap.mem_keys, holds.inverse, sees.joined]
  have room : h.hasRoom id = client.hasRoom := by
    unfold Hub.hasRoom
    rw [found, sees.room]
    rfl
  have entry := offered.subscribers id
  rw [offered.guards, found, Option.map_some, Option.some.injEq] at held
  simp only [reached, room] at entry held
  unfold Client.offered
  by_cases joined : message.channel ∈ client.joined
  · rw [if_pos joined] at held ⊢
    subst held
    unfold Subscription.offered
    cases sent : guard.queue.trySend message with
    | some queue =>
      obtain ⟨accepts, pending, capacity⟩ := Channel.trySend_eq_some sent
      rw [← sees.room] at accepts
      rw [if_pos accepts]
      rw [if_neg fun both => by rw [both.2] at accepts; cases accepts] at entry
      have kept := sees.transfer entry
      refine ⟨kept.limit, capacity.trans kept.capacity, kept.registered, kept.joined, ?_⟩
      show client.taken ++ queue.pending = client.due ++ [message]
      rw [pending, ← List.append_assoc, sees.queued]
    | none =>
      have full := Channel.trySend_eq_none.mp sent
      rw [← sees.room] at full
      rw [if_pos ⟨joined, full⟩] at entry
      rw [full, if_neg Bool.false_ne_true]
      refine ⟨sees.limit, sees.capacity, iff_of_false (OrdMap.get?_eq_none_iff.mp entry) nofun,
        fun channel => ?_, sees.queued⟩
      unfold items
      rw [entry]
      exact iff_of_false (OrdMap.not_mem_empty channel) (Finset.notMem_empty channel)
  · rw [if_neg joined] at held ⊢
    rw [if_neg fun both => joined both.1] at entry
    exact held ▸ sees.transfer entry

section Steps

variable (tracks : Tracks acts h)

include tracks

/-- **What one connection does** is seen as the hub takes it, and concerns no other. -/
theorem Tracks.own (deeds : List Deed) (kept : Private h id next)
    (sees : ∀ guard, h.guards.get? id = some guard → Sees (Client.read id acts) h id guard →
      ∀ after, next.guards.get? id = some after →
        Sees (deeds.foldl Client.after (Client.read id acts)) next id after) :
    Tracks (acts ++ deeds.map (.did id)) next := by
  refine ⟨kept.consistent, fun probe => ?_, ?_, fun probe after held => ?_,
    tracks.counted.append fun message reply inside => ?_⟩
  · rw [connections_deeds, kept.mem_guards]
    exact tracks.connected probe
  · rw [connections_deeds]
    exact tracks.nodup
  · rw [Client.read_deeds]
    split_ifs with same
    · subst same
      obtain ⟨guard, found⟩ := OrdMap.mem_iff.mp (kept.guards.mp (OrdMap.mem_iff.mpr ⟨after, held⟩))
      exact sees guard found (tracks.sees id guard found) after held
    · have apart := kept.apart probe (Ne.symm same)
      exact (tracks.sees probe after (apart.guards.symm.trans held)).transfer apart.subscribers
  · obtain ⟨deed, _, is⟩ := List.mem_map.mp inside
    cases is

theorem Tracks.subscribe (own : id ∈ h.guards) (list : List Bytes) (drainMessages : Bool)
    {maxChannels : Nat} (limit : (Client.read id acts).maxChannels = maxChannels) :
    let ran := (subscribeLocked id maxChannels list drainMessages).run.run h
    Tracks (acts ++ (changed ran.1 (.subscribe list)).map (.did id)) ran.2 := by
  subst limit
  obtain ⟨guard, found⟩ := OrdMap.mem_iff.mp own
  refine tracks.own _ ((subscribeLocked_alters tracks.consistent found _ _ _).private tracks.consistent) ?_
  exact fun guard found sees after held => sees.subscribe tracks.consistent found rfl held

theorem Tracks.unsubscribe (own : id ∈ h.guards) (list : List Bytes) (drainMessages : Bool) :
    let ran := (unsubscribeLocked id list drainMessages).run.run h
    Tracks (acts ++ (changed ran.1 (.unsubscribe list)).map (.did id)) ran.2 := by
  obtain ⟨guard, found⟩ := OrdMap.mem_iff.mp own
  refine tracks.own _ ((unsubscribeLocked_alters tracks.consistent found _ _).private tracks.consistent) ?_
  exact fun guard found sees after held => sees.unsubscribe tracks.consistent found rfl held

theorem Tracks.receive (id : Nat) :
    Tracks (acts ++ [.did id (.handed (h.tryMessage id).1.toList)]) (h.tryMessage id).2 := by
  refine tracks.own [.handed _] (private_tryMessage tracks.consistent id)
    fun guard found sees after held => ?_
  unfold tryMessage at held ⊢
  rw [found] at held ⊢
  dsimp only at held ⊢
  cases received : guard.queue.tryRecv with
  | none =>
    rw [received] at held
    cases found.symm.trans held
    exact sees.handed rfl rfl rfl
  | some first =>
    obtain ⟨message, queue⟩ := first
    rw [received] at held
    cases (OrdMap.get?_insert_self _ _ _).symm.trans held
    obtain ⟨pending, capacity⟩ := Channel.tryRecv_eq_some received
    have handed : Sees ((Client.read id acts).after (.handed [message])) h id { guard with queue := queue } :=
      sees.handed pending.symm rfl capacity
    exact handed.transfer rfl

theorem Tracks.drain (id : Nat) :
    Tracks (acts ++ [.did id (.handed (((drain id).run.run h).1.toOption.getD []))])
      ((drain id).run.run h).2 := by
  refine tracks.own [.handed _] (private_drain tracks.consistent id) fun guard found sees after held => ?_
  rw [run_drain, found] at held ⊢
  cases (OrdMap.get?_insert_self _ _ _).symm.trans held
  exact (sees.drained true).transfer rfl

/-- **One more publication.** Its reply is the number of the connections that accept it. -/
theorem Tracks.publish (message : Message) :
    Tracks (acts ++ [.published message [integerFrame (h.publish message).1]]) (h.publish message).2 := by
  have holds := tracks.consistent
  have offered := publish_offered holds message
  have guards : ∀ id, id ∈ (h.publish message).2.guards ↔ id ∈ h.guards := fun id => by
    rw [OrdMap.mem_iff, OrdMap.mem_iff, offered.guards]
    simp
  have same : connections (acts ++ [.published message [integerFrame (h.publish message).1]]) =
      connections acts := List.foldl_append
  have count : (h.publish message).1 = accepting message acts := by
    rw [offered.counted]
    refine ((List.perm_ext_iff_of_nodup ((OrdMap.nodup_keys _).filter _)
      (tracks.nodup.filter _)).mpr fun id => ?_).length_eq
    rw [List.mem_filter, List.mem_filter, tracks.connected, OrdMap.mem_keys, holds.inverse]
    by_cases own : id ∈ h.guards
    · obtain ⟨guard, found⟩ := OrdMap.mem_iff.mp own
      have sees := tracks.sees id guard found
      rw [sees.joined, Client.accepts, sees.room, hasRoom, found]
      simp [own]
    · refine iff_of_false (fun both => own ?_) fun both => own both.1
      obtain ⟨channels, found, _⟩ := mem_items.mp both.1
      exact holds.guarded id (OrdMap.mem_iff.mpr ⟨channels, found⟩)
  refine ⟨offered.consistent, fun id => ?_, same ▸ tracks.nodup, fun id after held => ?_,
    count ▸ tracks.counted.publish message⟩
  · rw [same, guards]
    exact tracks.connected id
  · obtain ⟨guard, found⟩ := OrdMap.mem_iff.mp ((guards id).mp (OrdMap.mem_iff.mpr ⟨after, held⟩))
    rw [Client.read_append]
    exact (tracks.sees id guard found).publish holds found held

theorem Tracks.connect {maxChannels capacity : Nat}
    (ok : h.connect maxChannels capacity = .ok (id, next)) :
    Tracks (acts ++ [.connected id maxChannels capacity]) next := by
  obtain ⟨consistent, number, shape⟩ := tracks.consistent.connect ok
  have fresh : id ∉ h.guards := fun inside => by
    have := tracks.consistent.numbered id inside
    omega
  have more : connections (acts ++ [.connected id maxChannels capacity]) = connections acts ++ [id] :=
    List.foldl_append
  refine ⟨consistent, fun probe => ?_, ?_, fun probe guard held => ?_,
    tracks.counted.append fun _ _ inside => by cases List.mem_singleton.mp inside⟩
  · rw [more, List.mem_append, List.mem_singleton, tracks.connected, shape, OrdMap.mem_insert, or_comm]
  · rw [more]
    refine List.nodup_append.mpr ⟨tracks.nodup, List.nodup_singleton id, ?_⟩
    rintro other inside _ same rfl
    exact fresh (List.mem_singleton.mp same ▸ (tracks.connected _).mp inside)
  · rw [Client.read_append]
    by_cases same : probe = id
    · subst same
      show Sees (if probe = probe then _ else _) next probe guard
      rw [if_pos rfl]
      rw [shape] at held ⊢
      cases (OrdMap.get?_insert_self _ _ _).symm.trans held
      refine ⟨rfl, rfl, iff_of_true (OrdMap.mem_insert.mpr (.inl rfl)) rfl, fun channel => ?_, rfl⟩
      rw [items_insert, if_pos rfl]
      exact iff_of_false (OrdMap.not_mem_empty channel) (Finset.notMem_empty channel)
    · show Sees (if id = probe then _ else _) next probe guard
      rw [if_neg (Ne.symm same)]
      have apart := apart_connect ok same
      exact (tracks.sees probe guard (apart.guards.symm.trans held)).transfer apart.subscribers

theorem Tracks.drop (id : Nat) : Tracks (acts ++ [.dropped id]) (h.drop id) := by
  have less : connections (acts ++ [.dropped id]) = (connections acts).filter (· ≠ id) :=
    List.foldl_append
  have gone : id ∉ (h.drop id).guards := OrdMap.get?_eq_none_iff.mp (OrdMap.get?_erase_self ..)
  refine ⟨tracks.consistent.drop id, fun probe => ?_, less ▸ tracks.nodup.filter _,
    fun probe guard held => ?_,
    tracks.counted.append fun _ _ inside => by cases List.mem_singleton.mp inside⟩
  · rw [less, List.mem_filter, tracks.connected, decide_eq_true_eq]
    by_cases same : probe = id
    · rw [same]
      exact iff_of_false (fun both => both.2 rfl) gone
    · rw [OrdMap.mem_iff, OrdMap.mem_iff, (apart_drop same).guards]
      exact and_iff_left same
  · have other : probe ≠ id := by
      rintro rfl
      exact gone (OrdMap.mem_iff.mpr ⟨guard, held⟩)
    rw [Client.read_append]
    exact (tracks.sees probe guard ((apart_drop other).guards.symm.trans held)).transfer
      (apart_drop other).subscribers

/-- **One command of a transaction.** -/
theorem Tracks.command (context : ExecContext) (own : id ∈ h.guards)
    (limit : (Client.read id acts).maxChannels = guard.maxChannels) (item : Command × Reply) :
    Tracks (acts ++ context.observed id guard h item) (context.command id guard h item).2 := by
  obtain ⟨command, reply⟩ := item
  unfold ExecContext.observed ExecContext.command
  cases command with
  | subscribe channels => exact tracks.subscribe own channels false limit
  | unsubscribe channels => exact tracks.unsubscribe own channels false
  | publish channel payload =>
    dsimp only
    split_ifs
    · exact tracks.publish ⟨channel, payload⟩
    · rw [List.append_nil]
      exact tracks
  | ping payload =>
    simp only [List.append_nil]
    split_ifs <;> exact tracks
  | _ =>
    simp only [List.append_nil]
    exact tracks

end Steps

/-- A transaction changes neither the limit of a connection nor who is connected. -/
theorem observed_limit (id : Nat) (guard : Subscription) (h : Hub) (acts : List Act)
    (context : ExecContext) (item : Command × Reply) :
    (Client.read id (acts ++ context.observed id guard h item)).maxChannels =
        (Client.read id acts).maxChannels ∧
      connections (acts ++ context.observed id guard h item) = connections acts := by
  have changes : ∀ (client : Client) (channels : List Bytes),
      (client.after (.subscribe channels)).maxChannels = client.maxChannels := fun client channels => by
    unfold Client.after
    dsimp only
    split_ifs <;> rfl
  obtain ⟨command, reply⟩ := item
  unfold ExecContext.observed
  cases command with
  | subscribe channels =>
    refine ⟨?_, connections_deeds ..⟩
    rw [Client.read_deeds, if_pos rfl]
    exact changes _ channels
  | unsubscribe channels =>
    refine ⟨?_, connections_deeds ..⟩
    rw [Client.read_deeds, if_pos rfl]
    rfl
  | publish channel payload =>
    dsimp only
    split_ifs
    · refine ⟨?_, List.foldl_append⟩
      rw [Client.read_append]
      show ((Client.read id acts).offered _).maxChannels = _
      unfold Client.offered
      split_ifs <;> rfl
    · simp
  | _ => simp

theorem Tracks.commands (context : ExecContext) (items : List (Command × Reply)) (frames : List Frame)
    (tracks : Tracks acts h) (own : id ∈ h.guards)
    (limit : (Client.read id acts).maxChannels = guard.maxChannels) :
    Tracks (acts ++ context.record id guard items h)
      (context.commands id guard items (frames, h)).2 := by
  induction items generalizing acts frames h with
  | nil =>
    rw [ExecContext.record, List.append_nil]
    exact tracks
  | cons item items ih =>
    have step := tracks.command context own limit item
    have kept := observed_limit id guard h acts context item
    rw [ExecContext.record, ← List.append_assoc]
    refine ih _ step ?_ (kept.1.trans limit)
    rw [← step.connected, kept.2, tracks.connected]
    exact own

/-- **One event.** -/
theorem Tracks.perform (tracks : Tracks acts h) (event : Event) :
    Tracks (acts ++ h.observed event) (h.perform event) := by
  have nothing : Tracks (acts ++ []) h := by
    rw [List.append_nil]
    exact tracks
  unfold Hub.observed Hub.perform
  cases event with
  | connect maxChannels capacity =>
    dsimp only
    split
    · rename_i ok
      exact tracks.connect ok
    · exact nothing
  | protocol id resp3 =>
    dsimp only
    unfold OrdMap.modify
    split
    · exact nothing
    · rename_i guard found
      refine tracks.own [] (tracks.consistent.seat found rfl) fun before was sees after held => ?_
      cases found.symm.trans was
      cases (OrdMap.get?_insert_self _ _ _).symm.trans held
      exact ⟨sees.limit, sees.capacity, sees.registered, sees.joined, sees.queued⟩
  | subscribe id channels =>
    dsimp only
    split
    · exact nothing
    · rename_i guard found
      exact tracks.subscribe (OrdMap.mem_iff.mpr ⟨guard, found⟩) channels true
        (tracks.sees id guard found).limit.symm
  | unsubscribe id channels =>
    dsimp only
    split
    · exact nothing
    · rename_i guard found
      exact tracks.unsubscribe (OrdMap.mem_iff.mpr ⟨guard, found⟩) channels true
  | publish message => exact tracks.publish message
  | receive id => exact tracks.receive id
  | exec id context commands replies =>
    dsimp only
    split
    · exact nothing
    · rename_i guard found
      rw [← List.append_assoc]
      exact (tracks.commands context _ [] (OrdMap.mem_iff.mpr ⟨guard, found⟩)
        (tracks.sees id guard found).limit.symm).drain id
  | drop id => exact tracks.drop id

/-- **Every run**, event by event. -/
theorem Tracks.run (tracks : Tracks acts h) (events : List Event) :
    Tracks (acts ++ h.record events) (h.run events) := by
  induction events generalizing acts h with
  | nil =>
    rw [Hub.record, List.append_nil]
    exact tracks
  | cons event events ih =>
    rw [Hub.record, ← List.append_assoc]
    exact ih (tracks.perform event)

/-- **The registry and the deliveries of every run.** The two indexes are inverse to each other and hold
no empty channel; the counters are exact and were never taken below zero; every publication returned the
number of connections that accepted its message. A connection is in the channels it asked for; what it was
handed, followed by what is pending and is handed out next, are the messages it was to receive; and once
there was no room for one it is in no channel. -/
theorem run_delivered (events : List Event) :
    let h := Hub.new.run events
    let acts := Hub.new.record events
    (∀ id channel, (∃ members, h.channels.get? channel = some members ∧ id ∈ members) ↔
        ∃ channels, h.subscribers.get? id = some channels ∧ channel ∈ channels) ∧
      (∀ channel members, h.channels.get? channel = some members → ∃ id, id ∈ members) ∧
      h.subscriptions = h.subscribers.total (fun _ channels => channels.size) ∧
      h.activeSubscribers =
        h.subscribers.total (fun _ channels => if channels.isEmpty then 0 else 1) ∧
      h.underflow = false ∧
      (∀ before message reply rest, acts = before ++ .published message reply :: rest →
        reply = [integerFrame (accepting message before)]) ∧
      (∀ id, id ∈ h.guards ↔ id ∈ connections acts) ∧
      ∀ id guard, h.guards.get? id = some guard →
        let client := Client.read id acts
        client.taken ++ guard.queue.pending = client.due ∧
          (h.tryMessage id).1 = guard.queue.pending.head? ∧
          ((drain id).run.run h).1 = .ok guard.queue.pending ∧
          (∀ channel, (∃ members, h.channels.get? channel = some members ∧ id ∈ members) ↔
            channel ∈ client.joined) ∧
          (client.removed = true → client.joined = ∅ ∧ h.subscribers.get? id = none) := by
  intro h acts
  have tracks : Tracks acts h := tracks_new.run events
  have holds := tracks.consistent
  have inverse : ∀ id channel, (∃ members, h.channels.get? channel = some members ∧ id ∈ members) ↔
      ∃ channels, h.subscribers.get? id = some channels ∧ channel ∈ channels := fun id channel => by
    have both := holds.inverse id channel
    rw [mem_items, mem_items] at both
    exact both
  refine ⟨inverse, fun channel found hit => isEmpty_eq_false_iff.mp (holds.full channel found hit),
    holds.subscriptions, holds.active, holds.exact, tracks.counted, fun id => (tracks.connected id).symm,
    fun id guard found => ?_⟩
  have sees := tracks.sees id guard found
  refine ⟨sees.queued, ?_, by rw [run_drain, found], fun channel => ?_, fun removed => ?_⟩
  · unfold tryMessage
    rw [found]
    dsimp only
    split
    · rename_i none
      rw [Channel.tryRecv_eq_none.mp none]
      rfl
    · rename_i message queue received
      rw [(Channel.tryRecv_eq_some received).1]
      rfl
  · rw [inverse, ← mem_items]
    exact sees.joined channel
  · have absent : id ∉ h.subscribers := fun inside => by
      rw [sees.registered.mp inside] at removed
      cases removed
    have entry := OrdMap.get?_eq_none_iff.mpr absent
    refine ⟨Finset.eq_empty_of_forall_notMem fun channel inside => ?_, entry⟩
    obtain ⟨channels, there, _⟩ := mem_items.mp ((sees.joined channel).mpr inside)
    rw [entry] at there
    cases there

/-- Two subscribers of one channel with room for one message each. The first reads what it is sent, is sent
two more and removed, and then asks in vain; the second publishes to itself in a transaction. -/
theorem run_delivered_overflow :
    let context : ExecContext := ⟨fun _ => true, .default, fun _ => []⟩
    let events : List Event := [.connect 2 1, .connect 2 1, .subscribe 0 [[1], [2]], .publish ⟨[1], [10]⟩,
      .receive 0, .publish ⟨[2], [20]⟩,
      .exec 1 context [.subscribe [[1]], .publish [1] [30]] [.integer 0, .integer 0], .subscribe 0 [[1]],
      .publish ⟨[1], [40]⟩]
    let h := Hub.new.run events
    let acts := Hub.new.record events
    let first := Client.read 0 acts
    let second := Client.read 1 acts
    (∃ guard, h.guards.get? 0 = some guard ∧ first.taken ++ guard.queue.pending = first.due ∧
        guard.queue.pending = [⟨[2], [20]⟩]) ∧
      first.taken = [⟨[1], [10]⟩] ∧ first.removed = true ∧ h.subscribers.get? 0 = none ∧
      (∃ guard, h.guards.get? 1 = some guard ∧ second.taken ++ guard.queue.pending = second.due ∧
        guard.queue.pending = [⟨[1], [40]⟩]) ∧
      second.taken = [⟨[1], [30]⟩] ∧ accepting ⟨[1], [40]⟩ acts = 0 := by
  intro context events h acts first second
  obtain ⟨_, _, _, _, _, _, _, delivered⟩ := run_delivered events
  have pending : (h.guards.get? 0).map (·.queue.pending) = some [⟨[2], [20]⟩] ∧
      (h.guards.get? 1).map (·.queue.pending) = some [⟨[1], [40]⟩] := by decide +kernel
  have seen : first.taken = [⟨[1], [10]⟩] ∧ first.removed = true ∧ second.taken = [⟨[1], [30]⟩] ∧
      accepting ⟨[1], [40]⟩ acts = 0 := by decide +kernel
  obtain ⟨guard, found, held⟩ := Option.map_eq_some_iff.mp pending.1
  obtain ⟨other, found', held'⟩ := Option.map_eq_some_iff.mp pending.2
  have one := delivered 0 guard found
  have two := delivered 1 other found'
  exact ⟨⟨guard, found, one.1, held⟩, seen.1, seen.2.1, (one.2.2.2.2 seen.2.1).2,
    ⟨other, found', two.1, held'⟩, seen.2.2⟩

end PubSub

end Sider
