/-
**What a connection does to the others, and the revocation of channels.**

A publication leaves the connections apart that are not subscribed to its channel, so that who is
subscribed to nothing gets nothing (`Stirred`).

`Hub.revalidate` takes from a connection the channels a policy no longer allows, with the messages of
theirs that are pending. `revalidate_spec` says what it leaves, and `revalidate_exact` that a subscriber
loses nothing else.
-/

import Sider.PubSub.Delivery
import Sider.Security.Policy

namespace Sider

open Resp Multimap FailingProgram

namespace PubSub

/-! ### Apart from a change -/

namespace Hub

variable {h mid next start : Hub} {id probe : Nat} {channels : OrdSet Bytes}

/-- A publication reaches the subscribers of its channel only. -/
theorem apart_publish (holds : h.Consistent) (message : Message)
    (unsubscribed : message.channel ∉ items h.subscribers id) : Apart h (h.publish message).2 id := by
  have offered := publish_offered holds message
  have missed : id ∉ (items h.channels message.channel).keys := fun inside =>
    unsubscribed ((holds.inverse id message.channel).mp (OrdMap.mem_keys.mp inside))
  refine ⟨?_, ?_⟩
  · rw [offered.subscribers id, if_neg fun both => missed both.1]
  · rw [offered.guards id]
    simp [missed]

/-- The connection is subscribed to nothing, and has nothing pending. -/
def Bare (h : Hub) (id : Nat) : Prop :=
  items h.subscribers id = ∅ ∧ ∀ guard, h.guards.get? id = some guard → guard.queue.pending = []

theorem Apart.bare (apart : Apart h next id) (bare : h.Bare id) : next.Bare id := by
  refine ⟨?_, fun guard found => bare.2 guard (apart.guards.symm.trans found)⟩
  unfold items
  rw [apart.subscribers]
  exact bare.1

theorem Apart.stays (apart : Apart h next id) (own : id ∈ h.guards) : id ∈ next.guards := by
  obtain ⟨guard, found⟩ := OrdMap.mem_iff.mp own
  exact OrdMap.mem_iff.mpr ⟨guard, apart.guards.trans found⟩

/-- What one connection may do to the others: nobody goes, and who is subscribed to nothing gets
nothing. -/
structure Stirred (h : Hub) (id : Nat) (next : Hub) : Prop where
  consistent : next.Consistent
  stays : ∀ probe, probe ∈ h.guards → probe ∈ next.guards
  bare : ∀ probe, probe ≠ id → h.Bare probe → next.Bare probe

theorem Consistent.stirred (holds : h.Consistent) (id : Nat) : Stirred h id h :=
  ⟨holds, fun _ own => own, fun _ _ bare => bare⟩

theorem Stirred.trans (first : Stirred h id mid) (second : Stirred mid id next) : Stirred h id next :=
  ⟨second.consistent, fun probe own => second.stays probe (first.stays probe own),
    fun probe other bare => second.bare probe other (first.bare probe other bare)⟩

theorem Private.stirred (kept : Private h id next) : Stirred h id next :=
  ⟨kept.consistent, fun probe own => (kept.mem_guards probe).mpr own, fun probe other bare =>
    (kept.apart probe other).bare bare⟩

theorem publish_stirred (holds : h.Consistent) (id : Nat) (message : Message) :
    Stirred h id (h.publish message).2 := by
  have offered := publish_offered holds message
  refine ⟨offered.consistent, fun probe own => ?_, fun probe _ bare => ?_⟩
  · rw [OrdMap.mem_iff, offered.guards]
    obtain ⟨guard, found⟩ := OrdMap.mem_iff.mp own
    exact ⟨_, Option.map_eq_some_iff.mpr ⟨guard, found, rfl⟩⟩
  · refine (apart_publish holds message ?_).bare bare
    rw [bare.1]
    exact OrdMap.not_mem_empty _

/-- **A connection gets another subscription**, and the one it had is dropped. -/
theorem reconnect_spec (holds : h.Consistent) {maxChannels capacity : Nat} {old : Option Nat}
    (ok : h.connect maxChannels capacity = .ok (id, mid)) (known : ∀ sub, old = some sub → sub ∈ h.guards) :
    (old.elim mid mid.drop).Consistent ∧ id ∉ h.guards ∧ id ∈ (old.elim mid mid.drop).guards ∧
      (old.elim mid mid.drop).Bare id ∧
      ∀ probe, probe ∈ h.guards → old ≠ some probe → Apart h (old.elim mid mid.drop) probe := by
  obtain ⟨consistent, number, shape⟩ := holds.connect ok
  have fresh : id ∉ h.guards := fun inside => by
    have := holds.numbered id inside
    omega
  have seated : id ∈ mid.guards := by
    rw [shape]
    exact OrdMap.mem_insert.mpr (.inl rfl)
  have bare : mid.Bare id := by
    rw [shape]
    refine ⟨?_, fun guard found => ?_⟩
    · rw [items_insert, if_pos rfl]
    · rw [OrdMap.get?_insert_self] at found
      rw [← Option.some.inj found]
      rfl
  have others : ∀ probe, probe ∈ h.guards → Apart h mid probe := fun probe own =>
    apart_connect ok fun same => fresh (same ▸ own)
  cases old with
  | none => exact ⟨consistent, fresh, seated, bare, fun probe own _ => others probe own⟩
  | some sub =>
    have apart : Apart mid (mid.drop sub) id :=
      apart_drop fun same => fresh (same ▸ known sub rfl)
    exact ⟨consistent.drop sub, fresh, apart.stays seated, apart.bare bare, fun probe own other =>
      (others probe own).trans (apart_drop fun same => other (same ▸ rfl))⟩

end Hub

/-! ### Revocation -/

namespace Hub

/-- Put messages back until the queue is full. -/
def resend (id : Nat) : List Message → Hub → Hub
  | [], h => h
  | message :: messages, h =>
    match h.trySend id message with
    | some h => resend id messages h
    | none => h

/-- A reload takes away the channels that are not allowed, and what is pending of them. -/
def revalidate (h : Hub) (id : Nat) (allowed : Bytes → Bool) : Hub :=
  match h.guards.get? id with
  | none => h
  | some guard =>
    let revoked := (items h.subscribers id).keys.filter fun channel => !allowed channel
    let drained := guard.queue.drain
    let retained := drained.1.filter fun message => allowed message.channel
    let h := { h with guards := h.guards.insert id { guard with queue := drained.2 } }
    let h := if revoked.isEmpty then h else ((unsubscribeLocked id revoked false).run.run h).2
    if id ∈ h.subscribers then resend id retained h else h

variable {h : Hub} {id : Nat} {guard : Subscription}

/-- The hub differs at most in what a connection has pending. -/
structure Refilled (h : Hub) (id : Nat) (pending : List Message) (next : Hub) : Prop where
  consistent : next.Consistent
  nextId : next.nextId = h.nextId
  subscribers : next.subscribers = h.subscribers
  apart : ∀ probe, probe ≠ id → Apart h next probe
  pending : ∃ guard, next.guards.get? id = some guard ∧ guard.queue.pending = pending

theorem resend_refilled (holds : h.Consistent) (found : h.guards.get? id = some guard)
    (messages : List Message) :
    Refilled h id (guard.queue.pending ++
        messages.take (guard.queue.capacity - guard.queue.pending.length))
      (resend id messages h) := by
  induction messages generalizing h guard with
  | nil => exact ⟨holds, rfl, rfl, fun probe _ => .refl h probe, guard, found, by simp⟩
  | cons message messages ih =>
    cases sent : guard.queue.trySend message with
    | none =>
      have full := Channel.trySend_eq_none.mp sent
      have refused : h.trySend id message = none := by
        unfold trySend
        rw [found, Option.bind_some, sent]
        rfl
      have none : guard.queue.capacity - guard.queue.pending.length = 0 := by
        have := of_decide_eq_false full
        omega
      unfold resend
      rw [refused]
      exact ⟨holds, rfl, rfl, fun probe _ => .refl h probe, guard, found, by rw [none]; simp⟩
    | some queue =>
      obtain ⟨accepts, grown, size⟩ := Channel.trySend_eq_some sent
      have room := of_decide_eq_true accepts
      have accepted : h.trySend id message =
          some { h with guards := h.guards.insert id { guard with queue := queue } } := by
        unfold trySend
        rw [found, Option.bind_some, sent]
        rfl
      have marked : ({ guard with queue := queue } : Subscription).evicted = guard.evicted := rfl
      have next := ih (holds.withGuard found marked) (OrdMap.get?_insert_self _ _ _)
      unfold resend
      rw [accepted]
      refine ⟨next.consistent, next.nextId, next.subscribers,
        fun probe other => (apart_withGuard other _).trans (next.apart probe other), ?_⟩
      obtain ⟨after, kept, pending⟩ := next.pending
      refine ⟨after, kept, ?_⟩
      have more : guard.queue.capacity - guard.queue.pending.length =
          guard.queue.capacity - (guard.queue.pending.length + 1) + 1 := by omega
      rw [pending, grown, size, List.length_append, List.length_singleton, more, List.take_succ_cons,
        List.append_assoc]
      rfl

/-- **What a revocation leaves**: the channels that are allowed, with what is pending of them, in order,
as far as the queue has room; the other connections do not notice. -/
structure Revalidated (h : Hub) (id : Nat) (allowed : Bytes → Bool) (next : Hub) : Prop where
  consistent : next.Consistent
  nextId : next.nextId = h.nextId
  apart : ∀ probe, probe ≠ id → Apart h next probe
  registered : id ∈ next.subscribers ↔ id ∈ h.subscribers
  channels : ∀ channel, channel ∈ items next.subscribers id ↔
    channel ∈ items h.subscribers id ∧ allowed channel = true
  pending : ∀ guard, h.guards.get? id = some guard → ∃ after, next.guards.get? id = some after ∧
    after.queue.pending = if id ∈ h.subscribers then
      (guard.queue.pending.filter fun message => allowed message.channel).take guard.queue.capacity
      else []

/-- The channels that are not allowed are left, and nothing else changes. -/
theorem revoke_seated (holds : h.Consistent) (found : h.guards.get? id = some guard)
    (allowed : Bytes → Bool) {revoked : List Bytes}
    (revokes : (items h.subscribers id).keys.filter (fun channel => !allowed channel) = revoked) :
    ∃ next, (if revoked.isEmpty then h else ((unsubscribeLocked id revoked false).run.run h).2) = next ∧
      Private h id next ∧ next.guards.get? id = some guard ∧
      ∀ channel, channel ∈ items next.subscribers id ↔
        channel ∈ items h.subscribers id ∧ allowed channel = true := by
  have member : ∀ channel, channel ∈ revoked ↔
      channel ∈ items h.subscribers id ∧ allowed channel = false := fun channel => by
    rw [← revokes, List.mem_filter, OrdMap.mem_keys, Bool.not_eq_true']
  cases revoked with
  | nil =>
    refine ⟨h, rfl, holds.private id, found, fun channel => ⟨fun inside => ⟨inside, ?_⟩, And.left⟩⟩
    by_contra refused
    exact List.not_mem_nil ((member channel).mpr ⟨inside, Bool.eq_false_iff.mpr refused⟩)
  | cons first rest =>
    rcases unsubscribeLocked_alters holds found (first :: rest) false with
      ⟨error, _, absent⟩ | ⟨channels, confirmations, next, joined, _, is, seated⟩
    · obtain ⟨channels, there, _⟩ := mem_items.mp ((member first).mp List.mem_cons_self).1
      exact (absent channels there trivial).elim
    · obtain ⟨now, entry, members⟩ := seated.channels
      refine ⟨next, congrArg Prod.snd is, seated.own, seated.guard, fun channel => ?_⟩
      dsimp only at members
      rw [items_of_get? entry, members, member, ← items_of_get? joined]
      cases allowed channel <;> simp

theorem revalidate_spec (holds : h.Consistent) (found : h.guards.get? id = some guard)
    (allowed : Bytes → Bool) : Revalidated h id allowed (h.revalidate id allowed) := by
  have emptied : ({ guard with queue := guard.queue.drain.2 } : Subscription) = guard.emptied := by
    rw [Channel.drain_eq]
    rfl
  have drained : Private h id { h with guards := h.guards.insert id guard.emptied } := holds.seat found rfl
  have held : (h.guards.insert id guard.emptied).get? id = some guard.emptied :=
    OrdMap.get?_insert_self _ _ _
  obtain ⟨next, is, kept, still, channels⟩ := revoke_seated drained.consistent held allowed rfl
  have own := drained.trans kept
  unfold revalidate
  rw [found]
  dsimp only at is channels ⊢
  rw [emptied, is, Channel.drain_eq]
  split_ifs with registered
  · have refilled := resend_refilled own.consistent still
      (guard.queue.pending.filter fun message => allowed message.channel)
    obtain ⟨after, now, pending⟩ := refilled.pending
    refine ⟨refilled.consistent, refilled.nextId.trans own.nextId,
      fun probe other => (own.apart probe other).trans (refilled.apart probe other), ?_, ?_, ?_⟩
    · rw [refilled.subscribers]
      exact own.subscribers
    · rw [refilled.subscribers]
      exact channels
    · intro other was
      cases found.symm.trans was
      refine ⟨after, now, ?_⟩
      rw [pending, if_pos (own.subscribers.mp registered)]
      rfl
  · refine ⟨own.consistent, own.nextId, own.apart, own.subscribers, channels, fun other was => ?_⟩
    refine ⟨_, still, ?_⟩
    rw [if_neg fun inside => registered (own.subscribers.mpr inside)]
    rfl

/-- **A reload takes from a subscriber what its policy no longer allows, and nothing else.** -/
theorem revalidate_exact (holds : h.Consistent) (registered : id ∈ h.subscribers)
    (decode : String → Option Bytes) (policy : ClientPolicy) (username : String) :
    let allowed := fun channel => (policy.authorize decode username (Bytes.ascii "SUBSCRIBE")
      (.subscribe [channel])).toBool
    let next := h.revalidate id allowed
    next.Consistent ∧ id ∈ next.subscribers ∧
      (∀ channel, channel ∈ items next.subscribers id ↔
        channel ∈ items h.subscribers id ∧ allowed channel = true) ∧
      (∃ guard after, h.guards.get? id = some guard ∧ next.guards.get? id = some after ∧
        after.queue.pending = guard.queue.pending.filter fun message => allowed message.channel) ∧
      ∀ probe, probe ≠ id → next.subscribers.get? probe = h.subscribers.get? probe ∧
        next.guards.get? probe = h.guards.get? probe := by
  intro allowed next
  obtain ⟨guard, found⟩ := OrdMap.mem_iff.mp (holds.guarded id registered)
  have spec : Revalidated h id allowed next := revalidate_spec holds found allowed
  obtain ⟨after, kept, pending⟩ := spec.pending guard found
  refine ⟨spec.consistent, spec.registered.mpr registered, spec.channels,
    ⟨guard, after, found, kept, ?_⟩, fun probe other =>
      ⟨(spec.apart probe other).subscribers, (spec.apart probe other).guards⟩⟩
  -- What is put back is part of what was pending, so the queue has room for it.
  have fits := (List.length_filter_le (fun message => allowed message.channel)
    guard.queue.pending).trans guard.queue.bounded
  rw [pending, if_pos registered, List.take_of_length_le fits]

/-- A subscriber of two channels with a message of each pending, and a policy that allows it one of them;
another connection keeps both. -/
theorem revalidate_exact_pending :
    let h := new.run [.connect 2 2, .connect 2 2, .subscribe 0 [[1], [2]], .subscribe 1 [[1], [2]],
      .publish ⟨[1], [10]⟩, .publish ⟨[2], [20]⟩]
    let policy : ClientPolicy := ⟨[{
      name := "reader"
      commands := [.subscribe]
      readKeys := ⟨[], [], false⟩
      writeKeys := ⟨[], [], false⟩
      publishChannels := ⟨[], [], false⟩
      subscribeChannels := ⟨["Ag=="], [], false⟩
      infoSections := [] }]⟩
    let decode := fun rule => if rule = "Ag==" then some [2] else none
    let next := h.revalidate 0 fun channel =>
      (policy.authorize decode "reader" (Bytes.ascii "SUBSCRIBE") (.subscribe [channel])).toBool
    next.Consistent ∧ 0 ∈ next.subscribers ∧ [1] ∉ items next.subscribers 0 ∧
      [2] ∈ items next.subscribers 0 ∧
      (next.guards.get? 0).map (·.queue.pending) = some [⟨[2], [20]⟩] ∧
      (next.guards.get? 1).map (·.queue.pending) = some [⟨[1], [10]⟩, ⟨[2], [20]⟩] := by
  intro h policy decode next
  have registered : 0 ∈ h.subscribers := by decide +kernel
  obtain ⟨consistent, stays, channels, _, others⟩ :=
    revalidate_exact (tracks_new.run _).consistent registered decode policy "reader"
  refine ⟨consistent, stays, ?_, ?_, by decide +kernel, ?_⟩
  · exact fun inside => absurd ((channels [1]).mp inside).2 (by decide +kernel)
  · exact (channels [2]).mpr (by decide +kernel)
  · rw [(others 1 (by decide)).2]
    decide +kernel

end Hub

end PubSub

end Sider
