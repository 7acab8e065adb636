/-
**The registry of channels.**

`Hub` is the registry with the connections that hold a guard on it: who is subscribed to what, from both
sides, and the bounded queue of each connection. A publication goes through the subscribers of its
channel in order; one whose queue is full is removed from every channel.

`Consistent` is the invariant of the registry: the two indexes are inverse to each other, no channel is
empty and the counters are exact. Each primitive change keeps it: joining and leaving a channel, an
accepted message, a removal, a new connection. `underflow` is not part of the source: it is raised where
a counter would go below zero.
-/

import Sider.Command.Reply
import Sider.Lib.Channel
import Sider.Lib.FailingProgram
import Sider.Lib.Multimap

namespace Sider

open Resp Multimap

namespace PubSub

/-! ### The registry -/

structure Message where
  channel : Bytes
  payload : Bytes
  deriving DecidableEq

def Message.toFrame (message : Message) : Frame :=
  arrayFrame [bulkFrame (Bytes.ascii "message"), bulkFrame message.channel, bulkFrame message.payload]

inductive PubSubError where
  | channelLimit
  | closed
  deriving DecidableEq, Repr

def PubSubError.text : PubSubError → String
  | channelLimit => "ERR pubsub channel limit exceeded"
  | closed => "subscriber closed or notification queue full"

/-- A connection's guard on the registry, with its end of the queue. -/
structure Subscription where
  maxChannels : Nat
  queue : Channel Message
  evicted : Bool
  resp3 : Bool

/-- The registry, and the guards of the connections by number. A subscriber's entry holds its channels;
its end of the queue is that of the guard with the same number. -/
structure Hub where
  subscriptions : Nat
  activeSubscribers : Nat
  nextId : Nat
  subscribers : OrdMap Nat (OrdSet Bytes)
  channels : OrdMap Bytes (OrdSet Nat)
  guards : OrdMap Nat Subscription
  underflow : Bool

def Hub.new : Hub := ⟨0, 0, 0, ∅, ∅, ∅, false⟩

namespace Hub

/-- Offer a message to the queue of a connection. -/
def trySend (h : Hub) (id : Nat) (message : Message) : Option Hub :=
  (h.guards.get? id).bind fun guard =>
    (guard.queue.trySend message).map fun queue =>
      { h with guards := h.guards.insert id { guard with queue := queue } }

/-- Remove a subscriber from every channel and signal its connection. -/
def remove (h : Hub) (id : Nat) : Hub :=
  match h.subscribers.get? id with
  | none => h
  | some channels =>
    let active := if channels.isEmpty then 0 else 1
    { h with
      subscribers := h.subscribers.erase id
      subscriptions := h.subscriptions - channels.size
      activeSubscribers := h.activeSubscribers - active
      channels := channels.keys.foldl (unlink id) h.channels
      guards := h.guards.modify id ({ · with evicted := true })
      underflow := h.underflow || h.subscriptions < channels.size || h.activeSubscribers < active }

/-- Offer a message to one subscriber, and remove it if its queue is full. -/
def offer (message : Message) (state : Nat × Hub) (id : Nat) : Nat × Hub :=
  match (state.2.subscribers.get? id).bind fun _ => state.2.trySend id message with
  | some h => (state.1 + 1, h)
  | none => (state.1, state.2.remove id)

/-- The number of queues that accepted the message. -/
def publish (h : Hub) (message : Message) : Nat × Hub :=
  (items h.channels message.channel).keys.foldl (offer message) (0, h)

/-- A new connection; numbers are not used again. -/
def connect (h : Hub) (maxChannels capacity : Nat) : Except PubSubError (Nat × Hub) :=
  match Machine.checkedAdd h.nextId 1 with
  | none => .error .closed
  | some next => .ok (h.nextId,
      { h with
        nextId := next
        subscribers := h.subscribers.insert h.nextId ∅
        guards := h.guards.insert h.nextId ⟨maxChannels, .new capacity, false, false⟩ })

/-- The guard is dropped, and its end of the queue with it. -/
def drop (h : Hub) (id : Nat) : Hub :=
  let h := h.remove id
  { h with guards := h.guards.erase id }

/-- The connection is subscribed to some channel. -/
def active (h : Hub) (id : Nat) : Bool :=
  (h.subscribers.get? id).any fun channels => !channels.isEmpty

end Hub

abbrev HubM := ExceptT PubSubError (StateM Hub)

/-! ### Subscribing -/

def confirmation (kind : String) (channel : Option Bytes) (count : Nat) : Frame :=
  arrayFrame [bulkFrame (Bytes.ascii kind), .leaf (.bulk channel), integerFrame count]

/-- The channels of a subscriber. -/
def subscribed (id : Nat) : HubM (OrdSet Bytes) := do
  match (← get).subscribers.get? id with
  | none => throw .closed
  | some channels => return channels

theorem run_subscribed (id : Nat) (h : Hub) :
    (subscribed id).run.run h =
      match h.subscribers.get? id with
      | none => (.error .closed, h)
      | some channels => (.ok channels, h) := by
  show (match h.subscribers.get? id with
    | none => throw .closed
    | some channels => pure channels : HubM (OrdSet Bytes)).run.run h = _
  cases h.subscribers.get? id <;> rfl

/-- Take everything pending in a queue. -/
def drain (id : Nat) : HubM (List Message) := do
  match (← get).guards.get? id with
  | none => return []
  | some guard =>
    modify fun h => { h with guards := h.guards.insert id { guard with queue := guard.queue.drain.2 } }
    return guard.queue.drain.1

/-- Outside a transaction, confirmations do not overtake what was accepted before. -/
def drainWhen (id : Nat) (drainMessages : Bool) : HubM (List Message) :=
  if drainMessages then drain id else pure []

namespace Hub

/-- Record that a subscriber joins a channel. -/
def join (h : Hub) (id : Nat) (channels : OrdSet Bytes) (channel : Bytes) : Hub :=
  let joined := channels.add channel
  let new := if channel ∈ channels then 0 else 1
  { h with
    subscribers := h.subscribers.insert id joined
    subscriptions := h.subscriptions + new
    activeSubscribers := h.activeSubscribers + (if channel ∉ channels ∧ joined.size = 1 then 1 else 0)
    channels := link h.channels channel id }

/-- Record that a subscriber leaves a channel. -/
def part (h : Hub) (id : Nat) (channels : OrdSet Bytes) (channel : Bytes) : Hub :=
  let left := channels.erase channel
  let gone := if channel ∈ channels then 1 else 0
  let idle := if channel ∈ channels ∧ left.isEmpty then 1 else 0
  { h with
    subscribers := h.subscribers.insert id left
    subscriptions := h.subscriptions - gone
    activeSubscribers := h.activeSubscribers - idle
    channels := unlink id h.channels channel
    underflow := h.underflow || h.subscriptions < gone || h.activeSubscribers < idle }

end Hub

/-- A subscriber joins or leaves a channel, and is told how many it has now. -/
def changeChannel (kind : String) (change : Hub → Nat → OrdSet Bytes → Bytes → Hub)
    (after : OrdSet Bytes → Bytes → OrdSet Bytes) (id : Nat) (channel : Bytes) : HubM Frame := do
  let channels ← subscribed id
  modify (change · id channels channel)
  return confirmation kind (some channel) (after channels channel).size

def joinChannel : Nat → Bytes → HubM Frame :=
  changeChannel "subscribe" Hub.join OrdMap.add

def partChannel : Nat → Bytes → HubM Frame :=
  changeChannel "unsubscribe" Hub.part OrdMap.erase

/-- Subscribe to channels, after what was pending if it is drained first: the messages that precede the
confirmations in the response, and these. -/
def subscribeLocked (id maxChannels : Nat) (channels : List Bytes) (drainMessages : Bool) :
    HubM (List Message × List Frame) := do
  let current ← subscribed id
  if maxChannels < (OrdMap.ofKeys (channels ++ current.keys)).size then throw .channelLimit
  else
    let earlier ← drainWhen id drainMessages
    let confirmations ← channels.mapM (joinChannel id)
    return (earlier, confirmations)

/-- Unsubscribe from channels, or from all of them if none is given. -/
def unsubscribeLocked (id : Nat) (channels : List Bytes) (drainMessages : Bool) :
    HubM (List Message × List Frame) := do
  let current ← subscribed id
  let channels := if channels.isEmpty then current.keys else channels
  let earlier ← drainWhen id drainMessages
  let confirmations ← channels.mapM (partChannel id)
  return (earlier,
    (if channels.isEmpty then [confirmation "unsubscribe" none 0] else []) ++ confirmations)

/-! ### The invariant of the registry -/

namespace Hub

/-- A subscriber counts as active while it has a channel. -/
def activity (channels : OrdSet Bytes) : Nat :=
  if channels.isEmpty then 0 else 1

/-- **The registry is consistent.** -/
structure Consistent (h : Hub) : Prop where
  inverse : ∀ id channel, id ∈ items h.channels channel ↔ channel ∈ items h.subscribers id
  full : Full h.channels
  subscriptions : h.subscriptions = h.subscribers.total fun _ channels => channels.size
  active : h.activeSubscribers = h.subscribers.total fun _ channels => activity channels
  exact : h.underflow = false
  guarded : ∀ id, id ∈ h.subscribers → id ∈ h.guards
  evicted : ∀ id guard, h.guards.get? id = some guard → (guard.evicted = true ↔ id ∉ h.subscribers)
  numbered : ∀ id, id ∈ h.guards → id < h.nextId

theorem consistent_new : Consistent new where
  inverse := fun id channel => iff_of_false (OrdMap.not_mem_empty id) (OrdMap.not_mem_empty channel)
  full := nofun
  subscriptions := rfl
  active := rfl
  exact := rfl
  guarded := fun id inside => absurd inside (OrdMap.not_mem_empty id)
  evicted := nofun
  numbered := fun id inside => absurd inside (OrdMap.not_mem_empty id)

section Changes

variable {h : Hub} {id : Nat} {channels : OrdSet Bytes} {channel : Bytes}

/-- Replacing one binding changes a sum by the difference. -/
theorem total_replace {α : Type} {m : OrdMap Nat α} {old : α} (f : Nat → α → Nat) (new : α)
    (found : m.get? id = some old) : (m.insert id new).total f + f id old = m.total f + f id new := by
  rw [OrdMap.total_insert, OrdMap.total_erase_of_some f found]
  omega

theorem activity_eq (channels : OrdSet Bytes) :
    activity channels = if channels.size = 0 then 0 else 1 := by
  unfold activity
  rw [isEmpty_eq]
  simp

/-- The key set of a map after an existing binding is replaced. -/
theorem mem_replace {α : Type} {m : OrdMap Nat α} {old new : α} (found : m.get? id = some old)
    (probe : Nat) : probe ∈ m.insert id new ↔ probe ∈ m := by
  rw [OrdMap.mem_insert]
  exact ⟨fun either => either.elim (fun same => same ▸ OrdMap.mem_iff.mpr ⟨old, found⟩) fun old => old,
    .inr⟩

/-- The subscriber is gone from every channel, and its connection knows. -/
theorem remove_eq (found : h.subscribers.get? id = some channels) :
    h.remove id =
      { h with
        subscribers := h.subscribers.erase id
        subscriptions := h.subscriptions - channels.size
        activeSubscribers := h.activeSubscribers - activity channels
        channels := channels.keys.foldl (unlink id) h.channels
        guards := h.guards.modify id ({ · with evicted := true })
        underflow := h.underflow || h.subscriptions < channels.size ||
          h.activeSubscribers < activity channels } := by
  unfold remove
  rw [found]
  rfl

section

variable (holds : h.Consistent)

include holds

/-- The channels of one subscriber change, on both sides, and the counters with them. -/
theorem Consistent.reseat (found : h.subscribers.get? id = some channels) {after : OrdSet Bytes}
    {index : OrdMap Bytes (OrdSet Nat)} {subscriptions activeSubscribers : Nat} {underflow : Bool}
    (full : Full index)
    (members : ∀ probe other, probe ∈ items index other ↔
      if probe = id then other ∈ after else probe ∈ items h.channels other)
    (counted : subscriptions + channels.size = h.subscriptions + after.size)
    (busy : activeSubscribers + activity channels = h.activeSubscribers + activity after)
    (calm : underflow = false) :
    Consistent { h with
      subscribers := h.subscribers.insert id after
      subscriptions := subscriptions
      activeSubscribers := activeSubscribers
      channels := index
      underflow := underflow } := by
  have keys : ∀ probe, probe ∈ h.subscribers.insert id after ↔ probe ∈ h.subscribers := mem_replace found
  refine ⟨fun probe other => ?_, full, ?_, ?_, calm,
    fun probe inside => holds.guarded probe ((keys probe).mp inside),
    fun probe guard hit => (holds.evicted probe guard hit).trans (not_congr (keys probe)).symm,
    holds.numbered⟩
  · rw [members, items_insert]
    split_ifs
    · rfl
    · exact holds.inverse probe other
  · have sum := total_replace (fun _ (channels : OrdSet Bytes) => channels.size) after found
    have exact := holds.subscriptions
    dsimp only
    omega
  · have sum := total_replace (fun _ channels => activity channels) after found
    have exact := holds.active
    dsimp only
    omega

/-- **Joining a channel keeps the registry consistent.** -/
theorem Consistent.join (found : h.subscribers.get? id = some channels) (channel : Bytes) :
    (h.join id channels channel).Consistent := by
  have size := size_add channels channel
  have held := size_erase channels channel
  refine holds.reseat found (full_link holds.full channel id) (fun probe other => ?_) ?_ ?_ holds.exact
  · have before := holds.inverse id other
    rw [items_of_get? found] at before
    rw [items_link]
    by_cases same : probe = id <;> by_cases here : other = channel <;> simp [same, here, before]
  · omega
  · simp only [activity_eq]
    by_cases inside : channel ∈ channels <;> simp only [inside, if_true, if_false] at size held <;>
      simp only [inside, not_true, not_false_eq_true, false_and, true_and, if_false] <;>
      split_ifs <;> omega

/-- **Leaving a channel keeps the registry consistent.** -/
theorem Consistent.part (found : h.subscribers.get? id = some channels) (channel : Bytes) :
    (h.part id channels channel).Consistent := by
  have size := size_erase channels channel
  have sum := total_replace (fun _ (channels : OrdSet Bytes) => channels.size) (channels.erase channel) found
  have busy := total_replace (fun _ channels => activity channels) (channels.erase channel) found
  rw [← holds.subscriptions] at sum
  rw [← holds.active] at busy
  have idle : (if channel ∈ channels ∧ (channels.erase channel).isEmpty = true then 1 else 0) +
      activity (channels.erase channel) = activity channels := by
    simp only [activity_eq, isEmpty_eq, decide_eq_true_eq]
    by_cases inside : channel ∈ channels <;> simp only [inside, if_true, if_false] at size <;>
      simp only [inside, false_and, true_and, if_false] <;> split_ifs <;> omega
  refine holds.reseat found (full_unlink holds.full channel id) (fun probe other => ?_) ?_ ?_ ?_
  · have before := holds.inverse id other
    rw [items_of_get? found] at before
    rw [items_unlink]
    by_cases same : probe = id <;> by_cases here : other = channel <;> simp [same, here, before]
  · omega
  · omega
  · rw [holds.exact]
    simp only [Bool.false_or, Bool.or_eq_false_iff, decide_eq_false_iff_not, not_lt]
    omega

/-- **Removing a subscriber keeps the registry consistent.** -/
theorem Consistent.remove (id : Nat) : (h.remove id).Consistent := by
  cases found : h.subscribers.get? id with
  | none =>
    unfold Hub.remove
    rw [found]
    exact holds
  | some channels =>
    rw [remove_eq found]
    have sum := OrdMap.total_erase_of_some (fun _ channels => channels.size) found
    have busy := OrdMap.total_erase_of_some (fun _ channels => activity channels) found
    have exact := holds.subscriptions
    have exact' := holds.active
    refine ⟨fun probe other => ?_, full_foldl_unlink holds.full channels.keys id, by dsimp only; omega,
      by dsimp only; omega, ?_, fun probe own => ?_, fun probe guard hit => ?_, fun probe own => ?_⟩
    · rw [items_foldl_unlink, items_erase]
      have before := holds.inverse probe other
      by_cases same : probe = id
      · subst same
        rw [items_of_get? found] at before
        by_cases here : other ∈ channels
        · simp [OrdMap.mem_keys, here]
        · simp [OrdMap.mem_keys, here, before]
      · by_cases here : other ∈ channels
        · simp [OrdMap.mem_keys, here, same, before]
        · simp [OrdMap.mem_keys, here, same, before]
    · rw [holds.exact]
      simp only [Bool.false_or, Bool.or_eq_false_iff, decide_eq_false_iff_not, not_lt]
      omega
    · obtain ⟨_, old⟩ := OrdMap.mem_erase.mp own
      exact OrdMap.mem_modify.mpr (holds.guarded probe old)
    · rw [OrdMap.get?_modify] at hit
      rw [OrdMap.mem_erase]
      split_ifs at hit with same
      · obtain ⟨old, _, rfl⟩ := Option.map_eq_some_iff.mp hit
        exact iff_of_true rfl fun both => both.1 same
      · rw [holds.evicted probe guard hit]
        simp [same]
    · exact holds.numbered probe (OrdMap.mem_modify.mp own)

/-- The registry does not depend on a guard, but for its mark of eviction. -/
theorem Consistent.withGuard {guard next : Subscription} (found : h.guards.get? id = some guard)
    (marked : next.evicted = guard.evicted) :
    Consistent { h with guards := h.guards.insert id next } := by
  refine ⟨holds.inverse, holds.full, holds.subscriptions, holds.active, holds.exact,
    fun probe own => (mem_replace found probe).mpr (holds.guarded probe own), fun probe other hit => ?_,
    fun probe own => holds.numbered probe ((mem_replace found probe).mp own)⟩
  rw [OrdMap.get?_insert] at hit
  split_ifs at hit with same
  · cases hit
    rw [marked]
    exact same ▸ holds.evicted id guard found
  · exact holds.evicted probe other hit

theorem Consistent.connect {maxChannels capacity : Nat} {next : Hub}
    (ok : h.connect maxChannels capacity = .ok (id, next)) :
    next.Consistent ∧ id = h.nextId ∧
      next = { h with
        nextId := h.nextId + 1
        subscribers := h.subscribers.insert id ∅
        guards := h.guards.insert id ⟨maxChannels, .new capacity, false, false⟩ } := by
  unfold Hub.connect at ok
  split at ok
  · cases ok
  · rename_i successor sum
    obtain ⟨_, rfl⟩ := Machine.checkedAdd_eq_some.mp sum
    cases ok
    have fresh : h.guards.get? h.nextId = none :=
      OrdMap.get?_eq_none_iff.mpr fun inside => lt_irrefl _ (holds.numbered _ inside)
    have idle : h.subscribers.get? h.nextId = none :=
      OrdMap.get?_eq_none_iff.mpr fun inside => OrdMap.get?_eq_none_iff.mp fresh (holds.guarded _ inside)
    have none : items h.subscribers h.nextId = ∅ := by
      unfold items
      rw [idle]
      rfl
    refine ⟨⟨fun probe channel => ?_, holds.full, ?_, ?_, holds.exact, fun probe own => ?_,
      fun probe guard hit => ?_, fun probe own => ?_⟩, rfl, rfl⟩
    · rw [holds.inverse probe channel, items_insert]
      split_ifs with same
      · rw [same, none]
      · rfl
    · rw [OrdMap.total_insert_of_none _ _ idle, ← holds.subscriptions]
      exact (Nat.zero_add _).symm
    · rw [OrdMap.total_insert_of_none _ _ idle, ← holds.active]
      exact (Nat.zero_add _).symm
    · rcases OrdMap.mem_insert.mp own with same | old
      · exact OrdMap.mem_insert.mpr (.inl same)
      · exact OrdMap.mem_insert.mpr (.inr (holds.guarded probe old))
    · rw [OrdMap.get?_insert] at hit
      rw [OrdMap.mem_insert]
      split_ifs at hit with same
      · cases hit
        exact iff_of_false Bool.false_ne_true fun other => other (.inl same)
      · rw [holds.evicted probe guard hit]
        simp [same]
    · show probe < h.nextId + 1
      rcases OrdMap.mem_insert.mp own with same | old
      · omega
      · have := holds.numbered probe old
        omega

end

theorem mem_remove (h : Hub) (id probe : Nat) :
    probe ∈ (h.remove id).subscribers ↔ probe ∈ h.subscribers ∧ probe ≠ id := by
  cases found : h.subscribers.get? id with
  | none =>
    unfold remove
    rw [found]
    refine ⟨fun inside => ⟨inside, ?_⟩, And.left⟩
    rintro rfl
    exact OrdMap.get?_eq_none_iff.mp found inside
  | some channels =>
    rw [remove_eq found]
    exact OrdMap.mem_erase.trans and_comm

theorem Consistent.drop (holds : h.Consistent) (id : Nat) : (h.drop id).Consistent := by
  have removed := holds.remove id
  have gone : id ∉ (h.remove id).subscribers := fun inside => ((mem_remove h id id).mp inside).2 rfl
  refine ⟨removed.inverse, removed.full, removed.subscriptions, removed.active, removed.exact,
    fun probe own => ?_, fun probe guard hit => ?_, fun probe own => ?_⟩
  · refine OrdMap.mem_erase.mpr ⟨?_, removed.guarded probe own⟩
    rintro rfl
    exact gone own
  · change ((h.remove id).guards.erase id).get? probe = some guard at hit
    rw [OrdMap.get?_erase] at hit
    split_ifs at hit
    exact removed.evicted probe guard hit
  · exact removed.numbered probe (OrdMap.mem_erase.mp own).2

end Changes

end Hub

end PubSub

end Sider
